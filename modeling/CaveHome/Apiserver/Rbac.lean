import CaveHome.Apiserver.Types

/-!
# Role-based access control

Rules grant requests, roles collect rules, and bindings give roles to subjects.  What no rule grants
is left undecided.
-/

namespace CaveHome.Apiserver

inductive Decision
  | allow | deny | noOpinion
  deriving DecidableEq

structure UserInfo where
  name : String
  groups : List String := []
  deriving DecidableEq

/-- A request for a resource or, if `resourceRequest` is false, for a path. -/
structure Attributes where
  user : UserInfo
  verb : String
  resourceRequest : Bool
  apiGroup : String := ""
  resource : String := ""
  subresource : String := ""
  name : String := ""
  namespaceName : String := ""
  path : String := ""

def Attributes.combinedResource (attrs : Attributes) : String :=
  if attrs.subresource = "" then attrs.resource else attrs.resource ++ "/" ++ attrs.subresource

structure PolicyRule where
  verbs : List String := []
  apiGroups : List String := []
  resources : List String := []
  /-- The objects the rule is about; all if there are none. -/
  resourceNames : List String := []
  nonResourceUrls : List String := []

def verbMatches (verbs : List String) (verb : String) : Bool :=
  verbs.any fun v => v == "*" || v == verb

def apiGroupMatches (groups : List String) (group : String) : Bool :=
  groups.any fun g => g == "*" || g == group

def resourceMatches (resources : List String) (combined subresource : String) : Bool :=
  resources.any fun r =>
    r == "*" || r == combined ||
      (subresource != "" && ['*', '/'].isPrefixOf r.toList &&
        String.ofList (r.toList.drop 2) == subresource)

def resourceNameMatches (resourceNames : List String) (name : String) : Bool :=
  resourceNames.isEmpty || (name != "" && resourceNames.contains name)

/-- A rule that ends in an asterisk stands for every path that begins as it does. -/
def nonResourceUrlMatches (rule path : String) : Bool :=
  rule == "*" || rule == path ||
    (rule.toList.getLast? == some '*' && rule.toList.dropLast.isPrefixOf path.toList)

def PolicyRule.allows (rule : PolicyRule) (attrs : Attributes) : Bool :=
  if attrs.resourceRequest then
    verbMatches rule.verbs attrs.verb && apiGroupMatches rule.apiGroups attrs.apiGroup &&
      resourceMatches rule.resources attrs.combinedResource attrs.subresource &&
      resourceNameMatches rule.resourceNames attrs.name
  else
    verbMatches rule.verbs attrs.verb &&
      rule.nonResourceUrls.any (nonResourceUrlMatches · attrs.path)

inductive SubjectKind
  | user | group | serviceAccount
  deriving DecidableEq

structure Subject where
  kind : SubjectKind
  name : String
  namespaceName : String := ""

def Subject.matches (subject : Subject) (user : UserInfo) : Bool :=
  match subject.kind with
  | .user => subject.name == user.name
  | .group => user.groups.contains subject.name
  | .serviceAccount =>
    user.name == "system:serviceaccount:" ++ subject.namespaceName ++ ":" ++ subject.name

inductive RoleRefKind
  | role | clusterRole
  deriving DecidableEq

structure RoleRef where
  kind : RoleRefKind
  name : String

structure Role where
  namespaceName : String
  name : String
  rules : List PolicyRule

structure ClusterRole where
  name : String
  rules : List PolicyRule

structure RoleBinding where
  namespaceName : String
  name : String
  subjects : List Subject
  roleRef : RoleRef

structure ClusterRoleBinding where
  name : String
  subjects : List Subject
  roleRef : RoleRef

structure RbacAuthorizer where
  roles : List Role := []
  clusterRoles : List ClusterRole := []
  roleBindings : List RoleBinding := []
  clusterRoleBindings : List ClusterRoleBinding := []

namespace RbacAuthorizer

variable (a : RbacAuthorizer)

def role (namespaceName name : String) : Option Role :=
  a.roles.find? fun r => r.namespaceName == namespaceName && r.name == name

def clusterRole (name : String) : Option ClusterRole := a.clusterRoles.find? (·.name == name)

/-- A binding for the whole cluster grants requests everywhere. -/
def clusterBindingAllows (attrs : Attributes) (crb : ClusterRoleBinding) : Bool :=
  crb.subjects.any (·.matches attrs.user) && crb.roleRef.kind == .clusterRole &&
    ((a.clusterRole crb.roleRef.name).map (·.rules.any (·.allows attrs))).getD false

/-- A binding of a namespace grants requests for resources in that namespace only. -/
def bindingAllows (attrs : Attributes) (rb : RoleBinding) : Bool :=
  let rules : Option (List PolicyRule) :=
    match rb.roleRef.kind with
    | .role => (a.role rb.namespaceName rb.roleRef.name).map (·.rules)
    | .clusterRole => (a.clusterRole rb.roleRef.name).map (·.rules)
  rb.namespaceName == attrs.namespaceName && rb.subjects.any (·.matches attrs.user) &&
    (rules.map (·.any (·.allows attrs))).getD false

def authorize (attrs : Attributes) : Decision :=
  if a.clusterRoleBindings.any (a.clusterBindingAllows attrs) then .allow
  else if attrs.resourceRequest && attrs.namespaceName != "" &&
      a.roleBindings.any (a.bindingAllows attrs) then .allow
  else .noOpinion

end RbacAuthorizer

/-!
## Rights only grow, and stay in their namespace

Another role or binding takes no right away, and what is granted in a namespace depends on the roles
and bindings of that namespace alone.
-/

namespace RbacAuthorizer

variable {a b : RbacAuthorizer} {attrs : Attributes}

/-! ## Growing -/

def withRole (a : RbacAuthorizer) (role : Role) : RbacAuthorizer :=
  { a with roles := a.roles ++ [role] }

def withClusterRole (a : RbacAuthorizer) (role : ClusterRole) : RbacAuthorizer :=
  { a with clusterRoles := a.clusterRoles ++ [role] }

def withRoleBinding (a : RbacAuthorizer) (binding : RoleBinding) : RbacAuthorizer :=
  { a with roleBindings := a.roleBindings ++ [binding] }

def withClusterRoleBinding (a : RbacAuthorizer) (binding : ClusterRoleBinding) : RbacAuthorizer :=
  { a with clusterRoleBindings := a.clusterRoleBindings ++ [binding] }

/-- Anything that can be added to an authorizer. -/
inductive Addition
  | role (role : Role)
  | clusterRole (role : ClusterRole)
  | roleBinding (binding : RoleBinding)
  | clusterRoleBinding (binding : ClusterRoleBinding)

def add (a : RbacAuthorizer) : Addition → RbacAuthorizer
  | .role r => a.withRole r
  | .clusterRole r => a.withClusterRole r
  | .roleBinding b => a.withRoleBinding b
  | .clusterRoleBinding b => a.withClusterRoleBinding b

/-- The first finds no role and has no binding that the second does not find or have. -/
structure Within (a b : RbacAuthorizer) : Prop where
  role : ∀ namespaceName name r, a.role namespaceName name = some r →
    b.role namespaceName name = some r
  clusterRole : ∀ name r, a.clusterRole name = some r → b.clusterRole name = some r
  roleBindings : a.roleBindings ⊆ b.roleBindings
  clusterRoleBindings : a.clusterRoleBindings ⊆ b.clusterRoleBindings

theorem within_refl (a : RbacAuthorizer) : Within a a :=
  ⟨fun _ _ _ h => h, fun _ _ h => h, List.Subset.refl _, List.Subset.refl _⟩

theorem within_add (a : RbacAuthorizer) (e : Addition) : Within a (a.add e) := by
  have hself := within_refl a
  cases e with
  | role r =>
    refine { hself with role := fun namespaceName name found h => ?_ }
    rw [role] at h
    rw [role, add, withRole, List.find?_append, h]
    rfl
  | clusterRole r =>
    refine { hself with clusterRole := fun name found h => ?_ }
    rw [clusterRole] at h
    rw [clusterRole, add, withClusterRole, List.find?_append, h]
    rfl
  | roleBinding b => exact { hself with roleBindings := List.subset_append_left _ _ }
  | clusterRoleBinding b =>
    exact { hself with clusterRoleBindings := List.subset_append_left _ _ }

theorem authorize_eq_allow_iff : a.authorize attrs = .allow ↔
    (∃ crb ∈ a.clusterRoleBindings, a.clusterBindingAllows attrs crb = true) ∨
      (attrs.resourceRequest = true ∧ attrs.namespaceName ≠ "") ∧
        ∃ rb ∈ a.roleBindings, a.bindingAllows attrs rb = true := by
  unfold authorize
  split
  next h => exact iff_of_true rfl (.inl (List.any_eq_true.mp h))
  next h =>
    rw [List.any_eq_true] at h
    rw [or_iff_right h]
    split
    next h' =>
      simp only [Bool.and_eq_true, bne_iff_ne, List.any_eq_true] at h'
      exact iff_of_true rfl h'
    next h' =>
      simp only [Bool.and_eq_true, bne_iff_ne, List.any_eq_true] at h'
      exact iff_of_false nofun h'

theorem Within.clusterBindingAllows (h : Within a b) {crb : ClusterRoleBinding}
    (hallows : a.clusterBindingAllows attrs crb = true) :
    b.clusterBindingAllows attrs crb = true := by
  unfold RbacAuthorizer.clusterBindingAllows at hallows ⊢
  rw [Bool.and_eq_true] at hallows ⊢
  refine ⟨hallows.1, ?_⟩
  cases hfound : a.clusterRole crb.roleRef.name with
  | none =>
    rw [hfound] at hallows
    cases hallows.2
  | some r =>
    rw [h.clusterRole _ _ hfound]
    rw [hfound] at hallows
    exact hallows.2

theorem Within.bindingAllows (h : Within a b) {rb : RoleBinding}
    (hallows : a.bindingAllows attrs rb = true) : b.bindingAllows attrs rb = true := by
  unfold RbacAuthorizer.bindingAllows at hallows ⊢
  dsimp only at hallows ⊢
  rw [Bool.and_eq_true] at hallows ⊢
  refine ⟨hallows.1, ?_⟩
  replace hallows := hallows.2
  cases hkind : rb.roleRef.kind with
  | role =>
    rw [hkind] at hallows
    cases hfound : a.role rb.namespaceName rb.roleRef.name with
    | none =>
      rw [hfound] at hallows
      cases hallows
    | some r =>
      rw [h.role _ _ _ hfound]
      rw [hfound] at hallows
      exact hallows
  | clusterRole =>
    rw [hkind] at hallows
    cases hfound : a.clusterRole rb.roleRef.name with
    | none =>
      rw [hfound] at hallows
      cases hallows
    | some r =>
      rw [h.clusterRole _ _ hfound]
      rw [hfound] at hallows
      exact hallows

theorem Within.authorize (h : Within a b) (hallow : a.authorize attrs = .allow) :
    b.authorize attrs = .allow := by
  rw [authorize_eq_allow_iff] at hallow ⊢
  refine hallow.imp ?_ (And.imp_right ?_)
  · rintro ⟨crb, hmem, hallows⟩
    exact ⟨crb, h.clusterRoleBindings hmem, h.clusterBindingAllows hallows⟩
  · rintro ⟨rb, hmem, hallows⟩
    exact ⟨rb, h.roleBindings hmem, h.bindingAllows hallows⟩

theorem authorize_foldl_add (additions : List Addition) (hallow : a.authorize attrs = .allow) :
    (additions.foldl add a).authorize attrs = .allow := by
  induction additions generalizing a with
  | nil => exact hallow
  | cons e additions ih => exact ih ((within_add a e).authorize hallow)

/-! ## Namespaces -/

/-- The authorizers differ in the roles and the bindings of other namespaces only. -/
structure SameIn (n : String) (a b : RbacAuthorizer) : Prop where
  roles : a.roles.filter (·.namespaceName == n) = b.roles.filter (·.namespaceName == n)
  clusterRoles : a.clusterRoles = b.clusterRoles
  roleBindings : a.roleBindings.filter (·.namespaceName == n) =
    b.roleBindings.filter (·.namespaceName == n)
  clusterRoleBindings : a.clusterRoleBindings = b.clusterRoleBindings

variable {n : String}

theorem role_eq_find_filter (a : RbacAuthorizer) (n name : String) :
    a.role n name = (a.roles.filter (·.namespaceName == n)).find? (·.name == name) := by
  rw [role, List.find?_filter]
  simp only [Bool.decide_and, Bool.decide_eq_true]

theorem any_bindingAllows (h : attrs.namespaceName = n) :
    a.roleBindings.any (a.bindingAllows attrs) =
      (a.roleBindings.filter (·.namespaceName == n)).any (a.bindingAllows attrs) := by
  rw [List.any_filter]
  refine congrArg (a.roleBindings.any ·) (funext fun rb => ?_)
  unfold bindingAllows
  rw [h]
  cases rb.namespaceName == n <;> rfl

theorem SameIn.clusterRole_eq (h : SameIn n a b) : a.clusterRole = b.clusterRole := by
  funext name
  rw [clusterRole, clusterRole, h.clusterRoles]

theorem SameIn.bindingAllows_eq (h : SameIn n a b) (hn : attrs.namespaceName = n) :
    a.bindingAllows attrs = b.bindingAllows attrs := by
  funext rb
  unfold bindingAllows
  rw [h.clusterRole_eq]
  cases hrb : rb.namespaceName == attrs.namespaceName with
  | false => rfl
  | true =>
    rw [eq_of_beq hrb, hn, role_eq_find_filter, role_eq_find_filter, h.roles]

theorem SameIn.authorize_eq (h : SameIn n a b)
    (hscope : attrs.namespaceName = n ∨ attrs.namespaceName = "" ∨ attrs.resourceRequest = false) :
    a.authorize attrs = b.authorize attrs := by
  have hcluster : a.clusterBindingAllows attrs = b.clusterBindingAllows attrs := by
    funext crb
    rw [clusterBindingAllows, clusterBindingAllows, h.clusterRole_eq]
  unfold authorize
  rw [hcluster, h.clusterRoleBindings]
  obtain hn | hn | hn := hscope
  · rw [any_bindingAllows hn, any_bindingAllows hn, h.bindingAllows_eq hn, h.roleBindings]
  · rw [hn]
    simp
  · rw [hn]
    simp

/-- No addition turns an allowed request into another one, and two authorizers that differ only in
the roles and bindings of namespaces other than `n` decide alike in `n` and outside of every
namespace. -/
theorem additive_and_isolated :
    (∀ (a : RbacAuthorizer) (attrs : Attributes) (additions : List Addition),
      a.authorize attrs = .allow → (additions.foldl add a).authorize attrs = .allow) ∧
    ∀ (n : String) (a b : RbacAuthorizer) (attrs : Attributes), SameIn n a b →
      (attrs.namespaceName = n ∨ attrs.namespaceName = "" ∨ attrs.resourceRequest = false) →
        a.authorize attrs = b.authorize attrs :=
  ⟨fun _ _ additions => authorize_foldl_add additions,
    fun _ _ _ _ h hscope => h.authorize_eq hscope⟩

/-- May read the pods of its namespace. -/
def gardener : RbacAuthorizer where
  roles := [⟨"garden", "reader", [{ verbs := ["get"], apiGroups := [""], resources := ["pods"] }]⟩]
  roleBindings := [⟨"garden", "readers", [⟨.user, "ada", ""⟩], ⟨.role, "reader"⟩⟩]

/-- A role of another namespace with the same name changes nothing, neither added nor in place. -/
theorem additive_and_isolated_gardener :
    let attic : Role := ⟨"attic", "reader", []⟩
    let attrs : Attributes :=
      { user := ⟨"ada", []⟩, verb := "get", resourceRequest := true, resource := "pods"
        namespaceName := "garden" }
    (gardener.withRole attic).authorize attrs = .allow ∧
      gardener.authorize attrs = ({ gardener with roles := attic :: gardener.roles } :
        RbacAuthorizer).authorize attrs := by
  intro attic attrs
  have hallow : gardener.authorize attrs = .allow := by decide
  have hsame : SameIn "garden" gardener { gardener with roles := attic :: gardener.roles } :=
    ⟨rfl, rfl, rfl, rfl⟩
  exact ⟨additive_and_isolated.1 gardener attrs [.role attic] hallow,
    additive_and_isolated.2 "garden" gardener _ attrs hsame (.inl rfl)⟩

end RbacAuthorizer

end CaveHome.Apiserver
