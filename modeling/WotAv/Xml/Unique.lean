import Mathlib.Data.List.Pairwise
import Mathlib.Logic.Relation
import WotAv.Xml.Identity
import WotAv.Xml.IdentityKeys

/-!
# `xs:unique`

What a path selects is said by steps from node to node, and what a constraint
forbids by the values of the fields. `validate` passes exactly when no field
selects two nodes, every field that selects one has a value that is compared,
no two nodes have one tuple, and the work is within its bound.
-/

namespace WotAv.Xml

open WotAv.Lib WotAv.Binding

-- Nodes

section
variable {root : XmlNode}

/-- One step down. -/
def Child (root : XmlNode) (path below : Path) : Prop := below ∈ childrenAt root path

theorem child_iff {path below : Path} : Child root path below ↔
    ∃ node i, nodeAt root path = some node ∧ i < (childElements node).length ∧ below = path ++ [i] := by
  unfold Child childrenAt
  cases nodeAt root path with
  | none => simp
  | some node => simp [eq_comm]

theorem nodeAt_snoc (path : Path) (i : Nat) :
    nodeAt root (path ++ [i]) = (nodeAt root path).bind fun node => (childElements node)[i]? := by
  simp [nodeAt, List.foldlM_append]

def From (root : XmlNode) (path : Path) (i : Nat) (children : List XmlNode) : Prop :=
  ∃ node, nodeAt root path = some node ∧ (childElements node).drop i = children.filter (·.isElement)

theorem From.child {path : Path} {i : Nat} {child : XmlNode} {children : List XmlNode}
    (h : From root path i (child :: children)) (he : child.isElement) :
    nodeAt root (path ++ [i]) = some child ∧ Child root path (path ++ [i]) ∧ From root path (i + 1) children := by
  obtain ⟨node, hnode, hdrop⟩ := h
  rw [List.filter_cons_of_pos he] at hdrop
  have hget : (childElements node)[i]? = some child := by
    have hhead := congrArg List.head? hdrop
    simpa [List.head?_drop] using hhead
  obtain ⟨hi, -⟩ := List.getElem?_eq_some_iff.mp hget
  refine ⟨by rw [nodeAt_snoc, hnode]; exact hget, child_iff.mpr ⟨node, i, hnode, hi, rfl⟩, node, hnode, ?_⟩
  rw [← List.drop_drop, hdrop]
  rfl

mutual

theorem below_of_descendants : ∀ {node : XmlNode} {path below : Path}, nodeAt root path = some node →
    below ∈ descendants path node → Relation.TransGen (Child root) path below := by
  intro node path below hnode hm
  match node with
  | .element _ _ _ children => exact below_of_descendantsFrom ⟨_, hnode, rfl⟩ hm
  | .text _ | .comment _ | .processingInstruction .. => simp [descendants] at hm

theorem below_of_descendantsFrom : ∀ {children : List XmlNode} {path below : Path} {i : Nat}, From root path i children →
    below ∈ descendantsFrom path i children → Relation.TransGen (Child root) path below := by
  intro children path below i h hm
  match children with
  | [] => simp [descendantsFrom] at hm
  | child :: children =>
    simp only [descendantsFrom] at hm
    split at hm
    · rename_i he
      obtain ⟨hnode, hchild, hrest⟩ := h.child he
      rcases List.mem_cons.mp hm with rfl | hm
      · exact .single hchild
      · rcases List.mem_append.mp hm with hm | hm
        · exact .head hchild (below_of_descendants hnode hm)
        · exact below_of_descendantsFrom hrest hm
    · rename_i he
      obtain ⟨node, hnode, hdrop⟩ := h
      exact below_of_descendantsFrom ⟨node, hnode, by rw [hdrop, List.filter_cons_of_neg he]⟩ hm

end

theorem descendantsFrom_child {path : Path} {k : Nat} {node : XmlNode} (hnode : nodeAt root (path ++ [k]) = some node) :
    ∀ {children : List XmlNode} {i : Nat}, From root path i children → i ≤ k →
    path ++ [k] ∈ descendantsFrom path i children ∧
      ∀ below ∈ descendants (path ++ [k]) node, below ∈ descendantsFrom path i children := by
  intro children
  induction children with
  | nil =>
    rintro i ⟨parent, hparent, hdrop⟩ hk
    rw [nodeAt_snoc, hparent] at hnode
    obtain ⟨hlt, -⟩ := List.getElem?_eq_some_iff.mp hnode
    have hlength := congrArg List.length hdrop
    simp at hlength
    omega
  | cons child children ih =>
    intro i h hk
    simp only [descendantsFrom]
    split
    · rename_i he
      obtain ⟨hchild, -, hrest⟩ := h.child he
      rcases Nat.eq_or_lt_of_le hk with rfl | hlt
      · obtain rfl : child = node := Option.some.inj (hchild.symm.trans hnode)
        exact ⟨List.mem_cons_self, fun below hm => by simp [hm]⟩
      · obtain ⟨hself, hbelow⟩ := ih hrest hlt
        exact ⟨by simp [hself], fun below hm => by simp [hbelow below hm]⟩
    · rename_i he
      obtain ⟨parent, hparent, hdrop⟩ := h
      exact ih ⟨parent, hparent, by rw [hdrop, List.filter_cons_of_neg he]⟩ hk

theorem descendantsAt_child {path below : Path} (h : Child root path below) :
    below ∈ descendantsAt root path ∧ ∀ q ∈ descendantsAt root below, q ∈ descendantsAt root path := by
  obtain ⟨node, i, hnode, hi, rfl⟩ := child_iff.mp h
  have hchild : nodeAt root (path ++ [i]) = some (childElements node)[i] := by simp [nodeAt_snoc, hnode, hi]
  unfold descendantsAt
  simp only [hnode, hchild]
  cases node with
  | element name namespaces attributes children =>
    exact descendantsFrom_child hchild ⟨_, hnode, rfl⟩ (Nat.zero_le _)
  | text _ => simp [childElements, XmlNode.children] at hi
  | comment _ => simp [childElements, XmlNode.children] at hi
  | processingInstruction _ _ => simp [childElements, XmlNode.children] at hi

theorem mem_descendantsAt {path below : Path} :
    below ∈ descendantsAt root path ↔ Relation.TransGen (Child root) path below := by
  constructor
  · intro hm
    unfold descendantsAt at hm
    split at hm
    · cases hm
    · exact below_of_descendants ‹_› hm
  · intro h
    induction h using Relation.TransGen.head_induction_on with
    | single h => exact (descendantsAt_child h).1
    | head h _ ih => exact (descendantsAt_child h).2 _ ih

end

-- Paths

namespace IdentityValidation

variable {v : IdentityValidation}

/-- Child steps, each to an element that passes its test. -/
def Steps (v : IdentityValidation) : List XmlNameTest → Path → Path → Prop
  | [], node, last => node = last
  | step :: steps, node, last => ∃ next, Child v.root node next ∧ v.matchesElement step next ∧ v.Steps steps next last

/-- The node that the steps begin at. -/
def Starts (v : IdentityValidation) (path : IdentityPath) (context start : Path) : Prop :=
  if path.descendant then Relation.ReflTransGen (Child v.root) context start else start = context

/-- The path leads from the context to this element or attribute. -/
def Leads (v : IdentityValidation) (path : IdentityPath) (context : Path) (target : Target) : Prop :=
  ∃ start last, v.Starts path context start ∧ v.Steps path.elements start last ∧
    match path.attribute_ with
    | none => target = .element last
    | some test => ∃ name value i, (v.attributesAt last)[i]? = some (name, value) ∧ test.accepts name ∧
      target = .attribute last i

/-- One of the paths does. -/
def Selects (v : IdentityValidation) (paths : List IdentityPath) (context : Path) (target : Target) : Prop :=
  ∃ path ∈ paths, v.Leads path context target

theorem mem_follow (steps : List XmlNameTest) : ∀ {current : List Path} {last : Path},
    last ∈ (v.follow steps current).1 ↔ ∃ node ∈ current, v.Steps steps node last := by
  induction steps with
  | nil => simp [follow, Steps]
  | cons step steps ih =>
    intro current last
    simp only [follow, ih, List.mem_flatMap, List.mem_filter, Steps]
    constructor
    · rintro ⟨next, ⟨node, hnode, hchild, hmatches⟩, hsteps⟩
      exact ⟨node, hnode, next, hchild, hmatches, hsteps⟩
    · rintro ⟨node, hnode, next, hchild, hmatches, hsteps⟩
      exact ⟨next, ⟨node, hnode, hchild, hmatches⟩, hsteps⟩

theorem mem_matchingAttributes {test : XmlNameTest} {path : Path} {target : Target} :
    target ∈ v.matchingAttributes test path ↔ ∃ name value i, (v.attributesAt path)[i]? = some (name, value) ∧
      test.accepts name ∧ target = .attribute path i := by
  simp only [matchingAttributes, List.mem_map, List.mem_filter, List.mem_zipIdx_iff_getElem?, Prod.exists]
  constructor
  · rintro ⟨name, value, i, ⟨hget, haccepts⟩, rfl⟩
    exact ⟨name, value, i, hget, haccepts, rfl⟩
  · rintro ⟨name, value, i, hget, haccepts, rfl⟩
    exact ⟨name, value, i, ⟨hget, haccepts⟩, rfl⟩

variable {path : IdentityPath}

theorem starts_iff {context start : Path} :
    start ∈ context :: (if path.descendant then descendantsAt v.root context else []) ↔ v.Starts path context start := by
  unfold Starts
  split
  · rw [List.mem_cons, mem_descendantsAt, Relation.reflTransGen_iff_eq_or_transGen]
  · simp

theorem mem_selectPath {context : Path} {target : Target} :
    target ∈ (v.selectPath context path).1 ↔ v.Leads path context target := by
  have hfollow (last : Path) : last ∈ (v.follow path.elements
      (context :: (if path.descendant then descendantsAt v.root context else []))).1 ↔
      ∃ start, v.Starts path context start ∧ v.Steps path.elements start last := by
    simp only [mem_follow, starts_iff]
  unfold selectPath Leads
  cases hattribute : path.attribute_ with
  | none =>
    simp only [List.mem_map, hfollow]
    constructor
    · rintro ⟨last, ⟨start, hstart, hsteps⟩, rfl⟩
      exact ⟨start, last, hstart, hsteps, rfl⟩
    · rintro ⟨start, last, hstart, hsteps, rfl⟩
      exact ⟨last, ⟨start, hstart, hsteps⟩, rfl⟩
  | some test =>
    simp only [List.mem_flatMap, hfollow, mem_matchingAttributes]
    constructor
    · rintro ⟨last, ⟨start, hstart, hsteps⟩, hm⟩
      exact ⟨start, last, hstart, hsteps, hm⟩
    · rintro ⟨start, last, hstart, hsteps, hm⟩
      exact ⟨last, ⟨start, hstart, hsteps⟩, hm⟩

theorem mem_select {paths : List IdentityPath} {context : Path} {target : Target} :
    target ∈ (v.select context paths).1 ↔ v.Selects paths context target := by
  simp [select, Selects, mem_selectPath]

theorem nodup_eraseDups (n : Nat) : ∀ l : List Target, l.length ≤ n → l.eraseDups.Nodup := by
  induction n with
  | zero =>
    intro l hl
    simp [List.length_eq_zero_iff.mp (Nat.le_zero.mp hl)]
  | succ n ih =>
    intro l hl
    cases l with
    | nil => simp
    | cons a l =>
      rw [List.eraseDups_cons]
      refine List.nodup_cons.mpr ⟨by simp, ih _ ?_⟩
      exact (List.length_filter_le _ _).trans (Nat.le_of_succ_le_succ hl)

theorem nodup_select (paths : List IdentityPath) (context : Path) : (v.select context paths).1.Nodup :=
  nodup_eraseDups _ _ le_rfl

-- Fields

/-- What decoding leaves: values of their types, and selectors of elements. -/
structure Sound (v : IdentityValidation) : Prop where
  values : ∀ target typed, v.values target = some typed → Canonical typed.type typed.value
  selectors : ∀ entry ∈ v.constraints, ∀ path ∈ entry.2.selector, path.attribute_ = none
  work : v.work ≤ workLimit

def FieldAmbiguous (v : IdentityValidation) (node : Path) (field : List IdentityPath) : Prop :=
  ∃ s t, s ≠ t ∧ v.Selects field node s ∧ v.Selects field node t

def FieldExcessive (v : IdentityValidation) (node : Path) (field : List IdentityPath) : Prop :=
  ∃ target typed, v.Selects field node target ∧ v.values target = some typed ∧ excessive typed.type typed.value

/-- The field selects a node whose value is not compared, or that has no
simple value and is not nil. -/
def FieldUncompared (v : IdentityValidation) (node : Path) (field : List IdentityPath) : Prop :=
  ∃ target, v.Selects field node target ∧ ((v.values target = none ∧ v.isNil target = false) ∨
    ∃ typed, v.values target = some typed ∧ xsdValue typed.type typed.value = none)

def FieldIs (v : IdentityValidation) (node : Path) (field : List IdentityPath) (x : XsdValue) : Prop :=
  ∃ target typed, v.Selects field node target ∧ v.values target = some typed ∧
    xsdValue typed.type typed.value = some x ∧ ∀ other, v.Selects field node other → other = target

structure FieldFine (v : IdentityValidation) (node : Path) (field : List IdentityPath) : Prop where
  single : ¬v.FieldAmbiguous node field
  bounded : ¬v.FieldExcessive node field
  compared : ¬v.FieldUncompared node field

def FieldFault (v : IdentityValidation) (node : Path) (field : List IdentityPath) (code : OnvifErrorCode) : Prop :=
  code = .invalidValue ∧ (v.FieldAmbiguous node field ∨ v.FieldExcessive node field) ∨
    code = .unsupportedCapability ∧ v.FieldUncompared node field

theorem ok_andThen {α β : Type} (a : α) (f : α → Except OnvifError β) : (Except.ok a >>= f) = f a := rfl

variable {node : Path} {field : List IdentityPath} {e : OnvifError}

theorem fieldKey_error (hs : v.Sound) (h : v.fieldKey (v.select node field).1 = .error e) : v.FieldFault node field e.code := by
  have hmem := fun target => @mem_select v field node target
  have hnodup := v.nodup_select field node
  generalize (v.select node field).1 = targets at h hmem hnodup
  match targets with
  | [] => cases h
  | [target] =>
    have htarget : v.Selects field node target := (hmem target).mp List.mem_cons_self
    simp only [fieldKey] at h
    cases hvalue : v.values target with
    | none =>
      rw [hvalue] at h
      simp only at h
      split at h
      · cases h
      · rename_i hnil
        cases h
        exact .inr ⟨rfl, target, htarget, .inl ⟨hvalue, by simpa using hnil⟩⟩
    | some typed =>
      rw [hvalue] at h
      simp only at h
      have hagrees := keyOf_identityValueKey (hs.values target typed hvalue)
      cases hkey : identityValueKey typed.type typed.value with
      | ok key =>
        rw [hkey] at h
        cases h
      | error e' =>
        rw [hkey] at h hagrees
        cases h
        rcases hagrees with ⟨hcode, hexcess⟩ | ⟨hcode, hnone⟩
        · exact .inl ⟨hcode, .inr ⟨target, typed, htarget, hvalue, hexcess⟩⟩
        · exact .inr ⟨hcode, target, htarget, .inr ⟨typed, hvalue, hnone⟩⟩
  | s :: t :: targets =>
    cases h
    have hne : s ≠ t := fun he => (List.nodup_cons.mp hnodup).1 (he ▸ List.mem_cons_self)
    exact .inl ⟨rfl, .inl ⟨s, t, hne, (hmem s).mp List.mem_cons_self, (hmem t).mp (by simp)⟩⟩

theorem fieldKey_ok {key : Option String} (hs : v.Sound) (h : v.fieldKey (v.select node field).1 = .ok key) :
    v.FieldFine node field ∧ ∀ k, key = some k ↔ ∃ x, v.FieldIs node field x ∧ k = x.key := by
  have hmem := fun target => @mem_select v field node target
  generalize (v.select node field).1 = targets at h hmem
  match targets with
  | [] =>
    cases h
    have hnone : ∀ target, ¬v.Selects field node target := fun target ht => by simpa using (hmem target).mpr ht
    refine ⟨⟨?_, ?_, ?_⟩, fun k => ⟨nofun, ?_⟩⟩
    · rintro ⟨s, _, -, hselects, -⟩
      exact hnone s hselects
    · rintro ⟨s, _, hselects, -⟩
      exact hnone s hselects
    · rintro ⟨s, hselects, -⟩
      exact hnone s hselects
    · rintro ⟨_, ⟨s, _, hselects, -⟩, -⟩
      exact absurd hselects (hnone s)
  | [target] =>
    have htarget : v.Selects field node target := (hmem target).mp List.mem_cons_self
    have honly : ∀ other, v.Selects field node other → other = target := fun other ho => by simpa using (hmem other).mpr ho
    have hsingle : ¬v.FieldAmbiguous node field := by
      rintro ⟨s, t, hne, hselects, ht⟩
      exact hne ((honly s hselects).trans (honly t ht).symm)
    simp only [fieldKey] at h
    cases hvalue : v.values target with
    | none =>
      rw [hvalue] at h
      simp only at h
      split at h
      · rename_i hnil
        cases h
        refine ⟨⟨hsingle, ?_, ?_⟩, fun k => ⟨nofun, ?_⟩⟩
        · rintro ⟨s, typed, hselects, htyped, -⟩
          obtain rfl := honly s hselects
          simp [hvalue] at htyped
        · rintro ⟨s, hselects, ⟨-, hnot⟩ | ⟨typed, htyped, -⟩⟩
          · obtain rfl := honly s hselects
            simp [hnil] at hnot
          · obtain rfl := honly s hselects
            simp [hvalue] at htyped
        · rintro ⟨_, ⟨s, typed, hselects, htyped, -⟩, -⟩
          obtain rfl := honly s hselects
          simp [hvalue] at htyped
      · cases h
    | some typed =>
      rw [hvalue] at h
      simp only at h
      have hagrees := keyOf_identityValueKey (hs.values target typed hvalue)
      obtain ⟨k, hk, hkey⟩ := except_bind_ok h
      cases hkey
      rw [hk] at hagrees
      obtain ⟨hexcess, x, hx, rfl⟩ := hagrees
      refine ⟨⟨hsingle, ?_, ?_⟩, fun k => ⟨?_, ?_⟩⟩
      · rintro ⟨s, typed', hselects, htyped, hlong⟩
        obtain rfl := honly s hselects
        obtain rfl := Option.some.inj (hvalue.symm.trans htyped)
        simp [hexcess] at hlong
      · rintro ⟨s, hselects, ⟨hnone, -⟩ | ⟨typed', htyped, hnone⟩⟩
        · obtain rfl := honly s hselects
          simp [hvalue] at hnone
        · obtain rfl := honly s hselects
          obtain rfl := Option.some.inj (hvalue.symm.trans htyped)
          simp [hx] at hnone
      · rintro hk
        exact ⟨x, ⟨target, typed, htarget, hvalue, hx, honly⟩, (Option.some.inj hk).symm⟩
      · rintro ⟨y, ⟨s, typed', hselects, htyped, hy, -⟩, rfl⟩
        obtain rfl := honly s hselects
        obtain rfl := Option.some.inj (hvalue.symm.trans htyped)
        rw [Option.some.inj (hx.symm.trans hy)]
  | _ :: _ :: _ => cases h

def Tuple (v : IdentityValidation) (node : Path) (fields : List (List IdentityPath)) (xs : List XsdValue) : Prop :=
  List.Forall₂ (v.FieldIs node) fields xs

def fieldsWork (v : IdentityValidation) (fields : List (List IdentityPath)) (node : Path) : Nat :=
  (fields.map fun field => (v.select node field).2).sum

theorem charge_ok {n work work' : Nat} (h : charge n work = .ok work') : work' = work + n ∧ work' ≤ workLimit := by
  unfold charge at h
  split at h
  · cases h
  · cases h
    exact ⟨rfl, by omega⟩

theorem charge_error {n work : Nat} (h : charge n work = .error e) : e.code = .xmlLimit ∧ workLimit < work + n := by
  unfold charge at h
  split at h
  · cases h
    exact ⟨rfl, ‹_›⟩
  · cases h

variable {fields : List (List IdentityPath)} {tuple : Option (List String)}

theorem validateFields_error (hs : v.Sound) : ∀ {fields : List (List IdentityPath)} {work : Nat},
    v.validateFields node fields work = .error e →
    (∃ field ∈ fields, v.FieldFault node field e.code) ∨ e.code = .xmlLimit ∧ workLimit < work + v.fieldsWork fields node := by
  intro fields
  induction fields with
  | nil => exact nofun
  | cons field fields ih =>
    intro work h
    have hcost : v.fieldsWork (field :: fields) node = (v.select node field).2 + v.fieldsWork fields node := by
      simp [fieldsWork]
    simp only [validateFields] at h
    cases hcharge : charge (v.select node field).2 work with
    | error e' =>
      rw [hcharge] at h
      cases h
      obtain ⟨hcode, hlimit⟩ := charge_error hcharge
      exact .inr ⟨hcode, by omega⟩
    | ok work' =>
      obtain ⟨hwork, -⟩ := charge_ok hcharge
      rw [hcharge] at h
      cases hkey : v.fieldKey (v.select node field).1 with
      | error e' =>
        rw [ok_andThen, hkey] at h
        cases h
        exact .inl ⟨field, List.mem_cons_self, fieldKey_error hs hkey⟩
      | ok key =>
        rw [ok_andThen, hkey, ok_andThen] at h
        cases hrest : v.validateFields node fields work' with
        | error e' =>
          rw [hrest] at h
          cases h
          rcases ih hrest with ⟨other, hm, hfault⟩ | ⟨hcode, hlimit⟩
          · exact .inl ⟨other, List.mem_cons_of_mem _ hm, hfault⟩
          · exact .inr ⟨hcode, by omega⟩
        | ok result =>
          rw [hrest] at h
          cases h

theorem validateFields_ok (hs : v.Sound) : ∀ {fields : List (List IdentityPath)} {tuple : Option (List String)} {work work' : Nat},
    work ≤ workLimit → v.validateFields node fields work = .ok (tuple, work') →
    (∀ field ∈ fields, v.FieldFine node field) ∧ work' = work + v.fieldsWork fields node ∧ work' ≤ workLimit ∧
      ∀ keys, tuple = some keys ↔ ∃ xs, v.Tuple node fields xs ∧ keys = itemKeys xs := by
  intro fields
  induction fields with
  | nil =>
    intro tuple work work' hw h
    cases h
    refine ⟨nofun, rfl, hw, fun keys => ⟨fun hk => ⟨[], .nil, (Option.some.inj hk).symm⟩, ?_⟩⟩
    rintro ⟨_, hxs, rfl⟩
    cases hxs
    rfl
  | cons field fields ih =>
    intro tuple work work' _ h
    simp only [validateFields] at h
    obtain ⟨charged, hcharge, h⟩ := except_bind_ok h
    obtain ⟨key, hkey, h⟩ := except_bind_ok h
    obtain ⟨⟨rest, spent⟩, hrest, h⟩ := except_bind_ok h
    cases h
    obtain ⟨rfl, hlimit⟩ := charge_ok hcharge
    obtain ⟨hfine, hiff⟩ := fieldKey_ok hs hkey
    obtain ⟨hfines, hspent, hbound, hiffs⟩ := ih hlimit hrest
    refine ⟨?_, ?_, hbound, fun keys => ⟨?_, ?_⟩⟩
    · rintro other hm
      rcases List.mem_cons.mp hm with rfl | hm
      · exact hfine
      · exact hfines other hm
    · simp only [fieldsWork, List.map_cons, List.sum_cons] at hspent ⊢
      omega
    · intro hkeys
      obtain ⟨k, hk, hkeys⟩ := Option.bind_eq_some_iff.mp hkeys
      obtain ⟨ks, hks, rfl⟩ := Option.map_eq_some_iff.mp hkeys
      obtain ⟨x, hx, rfl⟩ := (hiff k).mp hk
      obtain ⟨xs, hxs, rfl⟩ := (hiffs ks).mp hks
      exact ⟨x :: xs, .cons hx hxs, rfl⟩
    · rintro ⟨_, hxs, rfl⟩
      cases hxs with
      | cons hx hxs =>
        rename_i x xs
        have hk : key = some x.key := (hiff _).mpr ⟨x, hx, rfl⟩
        have hks : rest = some (itemKeys xs) := (hiffs _).mpr ⟨xs, hxs, rfl⟩
        rw [hk, hks]
        rfl

-- Nodes of a scope

/-- The nodes have complete tuples with the same keys. -/
def SameTuple (v : IdentityValidation) (fields : List (List IdentityPath)) (node node' : Path) : Prop :=
  ∃ xs ys, v.Tuple node fields xs ∧ v.Tuple node' fields ys ∧ mergedItems xs = mergedItems ys

theorem keys_eq_iff {xs ys : List XsdValue} : itemKeys xs = itemKeys ys ↔ mergedItems xs = mergedItems ys :=
  ⟨merged_of_keys, fun h => by rw [← keys_merged xs, ← keys_merged ys, h]⟩

def nodesWork (v : IdentityValidation) (fields : List (List IdentityPath)) (nodes : List Path) : Nat :=
  (nodes.map (v.fieldsWork fields)).sum

variable {constraint : UniqueConstraint}

theorem validateNodes_error (hs : v.Sound) : ∀ {nodes : List Path} {tuples : List (List Char)} {work : Nat},
    work ≤ workLimit → nodes.Nodup → v.validateNodes constraint (nodes.map .element) tuples work = .error e →
    (∃ node ∈ nodes, ∃ field ∈ constraint.fields, v.FieldFault node field e.code) ∨
    (e.code = .invalidValue ∧ ((∃ node ∈ nodes, ∃ xs, v.Tuple node constraint.fields xs ∧ stringify (itemKeys xs) ∈ tuples) ∨
      ∃ node ∈ nodes, ∃ node' ∈ nodes, node ≠ node' ∧ v.SameTuple constraint.fields node node')) ∨
    e.code = .xmlLimit ∧ workLimit < work + v.nodesWork constraint.fields nodes := by
  intro nodes
  induction nodes with
  | nil => exact nofun
  | cons node nodes ih =>
    intro tuples work hw hn h
    obtain ⟨hfresh, hn⟩ := List.nodup_cons.mp hn
    have hcost : v.nodesWork constraint.fields (node :: nodes) =
        v.fieldsWork constraint.fields node + v.nodesWork constraint.fields nodes := by simp [nodesWork]
    simp only [List.map_cons, validateNodes] at h
    cases hfields : v.validateFields node constraint.fields work with
    | error e' =>
      rw [hfields] at h
      cases h
      rcases validateFields_error hs hfields with ⟨field, hm, hfault⟩ | ⟨hcode, hlimit⟩
      · exact .inl ⟨node, List.mem_cons_self, field, hm, hfault⟩
      · exact .inr (.inr ⟨hcode, by omega⟩)
    | ok result =>
      obtain ⟨tuple, spent⟩ := result
      rw [hfields, ok_andThen] at h
      obtain ⟨-, hspent, hlimit, hiff⟩ := validateFields_ok hs hw hfields
      cases tuple with
      | none =>
        rcases ih hlimit hn h with ⟨other, hm, hfault⟩ | ⟨hcode, ⟨other, hm, htuple⟩ | ⟨a, ha, b, hb, hab⟩⟩ | ⟨hcode, hover⟩
        · exact .inl ⟨other, List.mem_cons_of_mem _ hm, hfault⟩
        · exact .inr (.inl ⟨hcode, .inl ⟨other, List.mem_cons_of_mem _ hm, htuple⟩⟩)
        · exact .inr (.inl ⟨hcode, .inr ⟨a, List.mem_cons_of_mem _ ha, b, List.mem_cons_of_mem _ hb, hab⟩⟩)
        · exact .inr (.inr ⟨hcode, by omega⟩)
      | some keys =>
        obtain ⟨xs, hxs, rfl⟩ := (hiff keys).mp rfl
        simp only at h
        split at h
        · rename_i hseen
          cases h
          exact .inr (.inl ⟨rfl, .inl ⟨node, List.mem_cons_self, xs, hxs, hseen⟩⟩)
        · rcases ih hlimit hn h with ⟨other, hm, hfault⟩ | ⟨hcode, ⟨other, hm, ys, hys, hseen⟩ | ⟨a, ha, b, hb, hab⟩⟩ |
            ⟨hcode, hover⟩
          · exact .inl ⟨other, List.mem_cons_of_mem _ hm, hfault⟩
          · rcases List.mem_cons.mp hseen with hsame | hseen
            · refine .inr (.inl ⟨hcode, .inr ⟨node, List.mem_cons_self, other, List.mem_cons_of_mem _ hm, ?_, xs, ys, hxs, hys, ?_⟩⟩)
              · rintro rfl
                exact hfresh hm
              · exact keys_eq_iff.mp (stringify_inj hsame.symm)
            · exact .inr (.inl ⟨hcode, .inl ⟨other, List.mem_cons_of_mem _ hm, ys, hys, hseen⟩⟩)
          · exact .inr (.inl ⟨hcode, .inr ⟨a, List.mem_cons_of_mem _ ha, b, List.mem_cons_of_mem _ hb, hab⟩⟩)
          · exact .inr (.inr ⟨hcode, by omega⟩)

theorem validateNodes_ok (hs : v.Sound) : ∀ {nodes : List Path} {tuples : List (List Char)} {work work' : Nat},
    work ≤ workLimit → v.validateNodes constraint (nodes.map .element) tuples work = .ok work' →
    (∀ node ∈ nodes, ∀ field ∈ constraint.fields, v.FieldFine node field) ∧
    work' = work + v.nodesWork constraint.fields nodes ∧ work' ≤ workLimit ∧
    (∀ node ∈ nodes, ∀ xs, v.Tuple node constraint.fields xs → stringify (itemKeys xs) ∉ tuples) ∧
    nodes.Pairwise fun a b => ¬v.SameTuple constraint.fields a b := by
  intro nodes
  induction nodes with
  | nil =>
    intro tuples work work' hw h
    cases h
    exact ⟨nofun, rfl, hw, nofun, .nil⟩
  | cons node nodes ih =>
    intro tuples work work' hw h
    have hcost : v.nodesWork constraint.fields (node :: nodes) =
        v.fieldsWork constraint.fields node + v.nodesWork constraint.fields nodes := by simp [nodesWork]
    simp only [List.map_cons, validateNodes] at h
    obtain ⟨⟨tuple, spent⟩, hfields, h⟩ := except_bind_ok h
    obtain ⟨hfine, hspent, hlimit, hiff⟩ := validateFields_ok hs hw hfields
    cases tuple with
    | none =>
      obtain ⟨hfines, hwork, hbound, hnew, hpairs⟩ := ih hlimit h
      have hincomplete : ∀ xs, ¬v.Tuple node constraint.fields xs := fun xs hxs => by
        simpa using (hiff (itemKeys xs)).mpr ⟨xs, hxs, rfl⟩
      refine ⟨?_, by omega, hbound, ?_, .cons ?_ hpairs⟩
      · rintro other hm
        rcases List.mem_cons.mp hm with rfl | hm
        · exact hfine
        · exact hfines other hm
      · rintro other hm xs hxs
        rcases List.mem_cons.mp hm with rfl | hm
        · exact absurd hxs (hincomplete xs)
        · exact hnew other hm xs hxs
      · rintro other - ⟨xs, _, hxs, -⟩
        exact hincomplete xs hxs
    | some keys =>
      obtain ⟨xs, hxs, rfl⟩ := (hiff keys).mp rfl
      have hkeys : ∀ ys, v.Tuple node constraint.fields ys → itemKeys ys = itemKeys xs := fun ys hys =>
        (Option.some.inj ((hiff (itemKeys ys)).mpr ⟨ys, hys, rfl⟩)).symm
      simp only at h
      split at h
      · cases h
      · rename_i hseen
        obtain ⟨hfines, hwork, hbound, hnew, hpairs⟩ := ih hlimit h
        refine ⟨?_, by omega, hbound, ?_, .cons ?_ hpairs⟩
        · rintro other hm
          rcases List.mem_cons.mp hm with rfl | hm
          · exact hfine
          · exact hfines other hm
        · rintro other hm ys hys
          rcases List.mem_cons.mp hm with rfl | hm
          · rw [hkeys ys hys]
            exact hseen
          · exact fun hin => hnew other hm ys hys (List.mem_cons_of_mem _ hin)
        · rintro other hm ⟨ys, zs, hys, hzs, hsame⟩
          refine hnew other hm zs hzs ?_
          rw [← keys_eq_iff.mpr hsame, hkeys ys hys]
          exact List.mem_cons_self

-- Constraints

def Picks (v : IdentityValidation) (entry : Path × UniqueConstraint) (node : Path) : Prop :=
  v.Selects entry.2.selector entry.1 (.element node)

def elementOf : Target → Option Path
  | .element path => some path
  | .attribute .. => none

def nodesOf (v : IdentityValidation) (entry : Path × UniqueConstraint) : List Path :=
  (v.select entry.1 entry.2.selector).1.filterMap elementOf

def entryWork (v : IdentityValidation) (entry : Path × UniqueConstraint) : Nat :=
  (v.select entry.1 entry.2.selector).2 + v.nodesWork entry.2.fields (v.nodesOf entry)

def totalWork (v : IdentityValidation) (entries : List (Path × UniqueConstraint)) : Nat := (entries.map v.entryWork).sum

def Fault (v : IdentityValidation) (entry : Path × UniqueConstraint) (code : OnvifErrorCode) : Prop :=
  (∃ node, v.Picks entry node ∧ ∃ field ∈ entry.2.fields, v.FieldFault node field code) ∨
    code = .invalidValue ∧ ∃ node node', node ≠ node' ∧ v.Picks entry node ∧ v.Picks entry node' ∧
      v.SameTuple entry.2.fields node node'

structure Fine (v : IdentityValidation) (entry : Path × UniqueConstraint) : Prop where
  fields : ∀ node, v.Picks entry node → ∀ field ∈ entry.2.fields, v.FieldFine node field
  distinct : ∀ node node', v.Picks entry node → v.Picks entry node' → node ≠ node' → ¬v.SameTuple entry.2.fields node node'

variable {entry : Path × UniqueConstraint}

theorem select_nodes (h : ∀ path ∈ entry.2.selector, path.attribute_ = none) :
    (v.select entry.1 entry.2.selector).1 = (v.nodesOf entry).map .element ∧ (v.nodesOf entry).Nodup ∧
      ∀ node, node ∈ v.nodesOf entry ↔ v.Picks entry node := by
  have helement : ∀ target ∈ (v.select entry.1 entry.2.selector).1, ∃ path, target = .element path := by
    intro target hm
    obtain ⟨path, hpath, start, last, -, -, htarget⟩ := mem_select.mp hm
    rw [h path hpath] at htarget
    exact ⟨last, htarget⟩
  have hnodup := v.nodup_select entry.2.selector entry.1
  have hmem : ∀ node, node ∈ v.nodesOf entry ↔ v.Picks entry node := by
    intro node
    unfold Picks
    rw [← mem_select, nodesOf, List.mem_filterMap]
    constructor
    · rintro ⟨target, hm, hnode⟩
      obtain ⟨path, rfl⟩ := helement target hm
      obtain rfl := Option.some.inj hnode
      exact hm
    · exact fun hm => ⟨_, hm, rfl⟩
  have hmap : (v.select entry.1 entry.2.selector).1 = (v.nodesOf entry).map .element := by
    unfold nodesOf
    generalize (v.select entry.1 entry.2.selector).1 = targets at helement
    induction targets with
    | nil => rfl
    | cons target targets ih =>
      obtain ⟨path, rfl⟩ := helement target List.mem_cons_self
      exact congrArg (Target.element path :: ·) (ih fun t ht => helement t (List.mem_cons_of_mem _ ht))
  refine ⟨hmap, ?_, hmem⟩
  rw [hmap] at hnodup
  exact hnodup.of_map _

theorem same_comm {fields : List (List IdentityPath)} {a b : Path} (h : v.SameTuple fields a b) : v.SameTuple fields b a := by
  obtain ⟨xs, ys, hxs, hys, hsame⟩ := h
  exact ⟨ys, xs, hys, hxs, hsame.symm⟩

theorem validateConstraints_error (hs : v.Sound) : ∀ {entries : List (Path × UniqueConstraint)} {work : Nat},
    (∀ entry ∈ entries, entry ∈ v.constraints) → work ≤ workLimit → v.validateConstraints entries work = .error e →
    (∃ entry ∈ entries, v.Fault entry e.code) ∨ e.code = .xmlLimit ∧ workLimit < work + v.totalWork entries := by
  intro entries
  induction entries with
  | nil => exact nofun
  | cons entry entries ih =>
    intro work hin _ h
    obtain ⟨hmap, hnodup, hmem⟩ := select_nodes (hs.selectors entry (hin entry List.mem_cons_self))
    have hcost : v.totalWork (entry :: entries) = (v.select entry.1 entry.2.selector).2 +
        v.nodesWork entry.2.fields (v.nodesOf entry) + v.totalWork entries := by simp [totalWork, entryWork]
    simp only [validateConstraints] at h
    cases hcharge : charge (v.select entry.1 entry.2.selector).2 work with
    | error e' =>
      rw [hcharge] at h
      cases h
      obtain ⟨hcode, hlimit⟩ := charge_error hcharge
      exact .inr ⟨hcode, by omega⟩
    | ok charged =>
      obtain ⟨hcharged, hlimit⟩ := charge_ok hcharge
      rw [hcharge, ok_andThen, hmap] at h
      cases hnodes : v.validateNodes entry.2 ((v.nodesOf entry).map .element) [] charged with
      | error e' =>
        rw [hnodes] at h
        cases h
        rcases validateNodes_error hs hlimit hnodup hnodes with ⟨node, hm, hfield⟩ |
          ⟨hcode, ⟨_, _, _, _, hseen⟩ | ⟨a, ha, b, hb, hne, hsame⟩⟩ | ⟨hcode, hover⟩
        · exact .inl ⟨entry, List.mem_cons_self, .inl ⟨node, (hmem node).mp hm, hfield⟩⟩
        · cases hseen
        · exact .inl ⟨entry, List.mem_cons_self, .inr ⟨hcode, a, b, hne, (hmem a).mp ha, (hmem b).mp hb, hsame⟩⟩
        · exact .inr ⟨hcode, by omega⟩
      | ok spent =>
        obtain ⟨-, hspent, hbound, -, -⟩ := validateNodes_ok hs hlimit hnodes
        rw [hnodes, ok_andThen] at h
        rcases ih (fun entry hm => hin entry (List.mem_cons_of_mem _ hm)) hbound h with ⟨other, hm, hfault⟩ | ⟨hcode, hover⟩
        · exact .inl ⟨other, List.mem_cons_of_mem _ hm, hfault⟩
        · exact .inr ⟨hcode, by omega⟩

theorem validateConstraints_ok (hs : v.Sound) : ∀ {entries : List (Path × UniqueConstraint)} {work work' : Nat},
    (∀ entry ∈ entries, entry ∈ v.constraints) → work ≤ workLimit → v.validateConstraints entries work = .ok work' →
    (∀ entry ∈ entries, v.Fine entry) ∧ work + v.totalWork entries ≤ workLimit := by
  intro entries
  induction entries with
  | nil =>
    intro work work' _ hw h
    exact ⟨nofun, hw⟩
  | cons entry entries ih =>
    intro work work' hin _ h
    obtain ⟨hmap, -, hmem⟩ := select_nodes (hs.selectors entry (hin entry List.mem_cons_self))
    have hcost : v.totalWork (entry :: entries) = (v.select entry.1 entry.2.selector).2 +
        v.nodesWork entry.2.fields (v.nodesOf entry) + v.totalWork entries := by simp [totalWork, entryWork]
    simp only [validateConstraints] at h
    obtain ⟨charged, hcharge, h⟩ := except_bind_ok h
    obtain ⟨spent, hnodes, h⟩ := except_bind_ok h
    rw [hmap] at hnodes
    obtain ⟨hcharged, hlimit⟩ := charge_ok hcharge
    obtain ⟨hfine, hspent, hbound, -, hpairs⟩ := validateNodes_ok hs hlimit hnodes
    obtain ⟨hfines, htotal⟩ := ih (fun entry hm => hin entry (List.mem_cons_of_mem _ hm)) hbound h
    refine ⟨?_, by omega⟩
    rintro other hm
    rcases List.mem_cons.mp hm with rfl | hm
    · refine ⟨fun node hpick => hfine node ((hmem node).mpr hpick), fun a b ha hb hne hsame => ?_⟩
      have hsymm : Std.Symm fun a b => ¬v.SameTuple other.2.fields a b := ⟨fun a b hab hba => hab (same_comm hba)⟩
      exact hpairs.forall ((hmem a).mpr ha) ((hmem b).mpr hb) hne hsame
    · exact hfines other hm

/-- `validate` passes when every constraint is met within the work bound, and
what it throws is true of one of them. -/
structure Enforced (v : IdentityValidation) : Prop where
  passes : v.validate = .ok () ↔ (∀ entry ∈ v.constraints, v.Fine entry) ∧ v.work + v.totalWork v.constraints ≤ workLimit
  throws : ∀ e, v.validate = .error e → (∃ entry ∈ v.constraints, v.Fault entry e.code) ∨
    e.code = .xmlLimit ∧ workLimit < v.work + v.totalWork v.constraints

theorem Fine.no_fault (h : v.Fine entry) (code : OnvifErrorCode) : ¬v.Fault entry code := by
  rintro (⟨node, hpick, field, hm, hfault⟩ | ⟨-, a, b, hne, ha, hb, hsame⟩)
  · obtain ⟨hsingle, hbounded, hcompared⟩ := h.fields node hpick field hm
    rcases hfault with ⟨-, hambiguous | hexcessive⟩ | ⟨-, huncompared⟩
    · exact hsingle hambiguous
    · exact hbounded hexcessive
    · exact hcompared huncompared
  · exact h.distinct a b ha hb hne hsame

theorem Sound.enforced (hs : v.Sound) : v.Enforced := by
  have hin : ∀ entry ∈ v.constraints, entry ∈ v.constraints := fun _ hm => hm
  constructor
  · unfold validate
    cases h : v.validateConstraints v.constraints v.work with
    | ok work =>
      exact ⟨fun _ => validateConstraints_ok hs hin hs.work h, fun _ => rfl⟩
    | error e =>
      refine ⟨nofun, fun hfine => ?_⟩
      rcases validateConstraints_error hs hin hs.work h with ⟨entry, hm, hfault⟩ | ⟨-, hover⟩
      · exact absurd hfault ((hfine.1 entry hm).no_fault e.code)
      · omega
  · intro e h
    unfold validate at h
    cases hresult : v.validateConstraints v.constraints v.work with
    | ok work =>
      rw [hresult] at h
      cases h
    | error e' =>
      rw [hresult] at h
      cases h
      exact validateConstraints_error hs hin hs.work hresult

-- Documents

/-- A value that `decodeSimple` returns for a type of a descriptor. -/
def Decoded (host : Host) (type : SimpleType) (value : SimpleValue) : Prop :=
  Distinct type ∧ ∃ input namespaces, decodeSimple host type input namespaces = .ok value

/-- The constraint comes from paths that `parseIdentityXPath` accepts. -/
def Parsed (constraint : UniqueConstraint) : Prop :=
  (∃ expression namespaces, parseIdentityXPath expression namespaces true = .ok constraint.selector) ∧
    ∀ field ∈ constraint.fields, ∃ expression namespaces, parseIdentityXPath expression namespaces false = .ok field

/-- What `decode` gives the validation. -/
def Call.Decoded (host : Host) : Call → Prop
  | .record _ type value | .defaultAttribute _ _ type value => IdentityValidation.Decoded host type value
  | .scope _ unique => ∀ constraint ∈ unique, Parsed constraint

theorem identityPath_selector {namespaces : List (String × String)} {alternative : List Char}
    (h : identityPath namespaces true alternative = .ok path) : path.attribute_ = none := by
  unfold identityPath at h
  extract_lets trimmed descendant steps at h
  clear_value steps
  split at h
  · cases h
    rfl
  · obtain ⟨-, h⟩ := require_bind_ok.mp h
    split at h
    · obtain ⟨hfalse, -⟩ := require_bind_ok.mp h
      cases hfalse
    · obtain ⟨steps, -, h⟩ := except_bind_ok h
      cases h
      rfl

theorem parse_selector {expression : String} {namespaces : List (String × String)} {paths : List IdentityPath}
    (h : parseIdentityXPath expression namespaces true = .ok paths) : ∀ path ∈ paths, path.attribute_ = none := by
  obtain ⟨-, h⟩ := require_bind_ok.mp h
  intro path hm
  obtain ⟨alternative, -, halternative⟩ := except_mem_mapM h hm
  exact identityPath_selector halternative

variable {host : Host}

theorem Decoded.canonical {type : SimpleType} {value : SimpleValue} (h : Decoded host type value) :
    Canonical type value := by
  obtain ⟨hdistinct, input, namespaces, hvalue⟩ := h
  exact decodeSimple_ok host hdistinct hvalue

theorem Sound.setValue {target : Target} {typed : TypedValue} (hs : v.Sound) (h : Canonical typed.type typed.value) :
    (v.setValue target typed).Sound := by
  refine ⟨fun other value hvalue => ?_, hs.selectors, hs.work⟩
  by_cases ht : other = target
  · subst ht
    simp only [IdentityValidation.setValue, Function.update_self] at hvalue
    cases hvalue
    exact h
  · simp only [IdentityValidation.setValue, Function.update_of_ne ht] at hvalue
    exact hs.values other value hvalue

variable {v' : IdentityValidation}

theorem Sound.addId {id : String} {target : Target} (hs : v.Sound)
    (h : v.addId id target = .ok v') : v'.Sound := by
  obtain ⟨-, h⟩ := require_bind_ok.mp h
  cases h
  exact ⟨hs.values, hs.selectors, hs.work⟩

theorem Sound.record {target : Target} {type : SimpleType} {value : SimpleValue} (hs : v.Sound)
    (hc : Canonical type value) (h : v.record target type value = .ok v') : v'.Sound := by
  unfold IdentityValidation.record at h
  simp only at h
  split at h
  · cases h
    exact hs.setValue hc
  · exact (hs.setValue hc).addId h

theorem Sound.step {call : Call} (hs : v.Sound) (hd : call.Decoded host)
    (h : v.step call = .ok v') : v'.Sound := by
  cases call with
  | record target type value => exact hs.record hd.canonical h
  | defaultAttribute path added type value =>
    have hadded : ({ v with defaults := Function.update v.defaults path (v.defaults path ++ [added]) }).Sound :=
      ⟨hs.values, hs.selectors, hs.work⟩
    exact hadded.record hd.canonical h
  | scope path unique =>
    cases h
    refine ⟨hs.values, fun entry hm => ?_, hs.work⟩
    rcases List.mem_append.mp hm with hm | hm
    · exact hs.selectors entry hm
    · obtain ⟨constraint, hconstraint, rfl⟩ := List.mem_map.mp hm
      obtain ⟨⟨expression, namespaces, hparsed⟩, -⟩ := hd constraint hconstraint
      exact parse_selector hparsed

theorem canonical_id (text : String) : Canonical (.scalar .ID) (.string text) := by
  rw [Canonical]
  trivial

theorem sound_visitAttributes {path : Path} (attributes : List (QName × String)) :
    ∀ {v v' : IdentityValidation} {index : Nat}, v.Sound → visitAttributes path index attributes v = .ok v' → v'.Sound := by
  induction attributes with
  | nil =>
    rintro v v' index hs h
    cases h
    exact hs
  | cons entry attributes ih =>
    intro v v' index hs h
    simp only [visitAttributes] at h
    split at h
    · obtain ⟨-, h⟩ := require_bind_ok.mp h
      obtain ⟨added, hadded, h⟩ := except_bind_ok h
      exact ih ((hs.addId hadded).setValue (canonical_id _)) h
    · exact ih hs h

theorem sound_construct {root : XmlNode} (h : construct root = .ok v) : v.Sound := by
  have hvisits : ∀ (paths : List Path) {v v' : IdentityValidation}, v.Sound → paths.foldlM visit v = .ok v' → v'.Sound := by
    intro paths
    induction paths with
    | nil =>
      rintro v v' hs h
      cases h
      exact hs
    | cons path paths ih =>
      intro v v' hs h
      rw [List.foldlM_cons] at h
      obtain ⟨visited, hvisit, h⟩ := except_bind_ok h
      obtain ⟨work, hwork, hvisit⟩ := except_bind_ok hvisit
      have hcharged : ({ v with work }).Sound := ⟨hs.values, hs.selectors, (charge_ok hwork).2⟩
      exact ih (sound_visitAttributes _ hcharged hvisit) h
  exact hvisits _ ⟨fun _ _ hvalue => by simp at hvalue, fun _ hm => by simp at hm, Nat.zero_le _⟩ h

theorem sound_run {root : XmlNode} {calls : List Call} (hd : ∀ call ∈ calls, call.Decoded host)
    (h : run root calls = .ok v) : v.Sound := by
  obtain ⟨start, hstart, h⟩ := except_bind_ok h
  have hsteps : ∀ (calls : List Call) {v v' : IdentityValidation}, (∀ call ∈ calls, call.Decoded host) → v.Sound →
      calls.foldlM step v = .ok v' → v'.Sound := by
    intro calls
    induction calls with
    | nil =>
      rintro v v' - hs h
      cases h
      exact hs
    | cons call calls ih =>
      intro v v' hd hs h
      rw [List.foldlM_cons] at h
      obtain ⟨next, hnext, h⟩ := except_bind_ok h
      exact ih (fun call hm => hd call (List.mem_cons_of_mem _ hm)) (hs.step (hd call List.mem_cons_self) hnext) h
  exact hsteps calls hd (sound_construct hstart) h

theorem identityValueKey_eq_iff {type type' : SimpleType} {value value' : SimpleValue}
    (h : Decoded host type value) (h' : Decoded host type' value') (hk : identityValueKey type value = .ok key)
    (hk' : identityValueKey type' value' = .ok key') : key = key' ↔
      ∃ x y, xsdValue type value = some x ∧ xsdValue type' value' = some y ∧ x.merged = y.merged := by
  have hagrees := keyOf_identityValueKey h.canonical
  have hagrees' := keyOf_identityValueKey h'.canonical
  rw [hk] at hagrees
  rw [hk'] at hagrees'
  obtain ⟨-, x, hx, rfl⟩ := hagrees
  obtain ⟨-, y, hy, rfl⟩ := hagrees'
  rw [key_eq_iff]
  constructor
  · exact fun hmerged => ⟨x, y, hx, hy, hmerged⟩
  · rintro ⟨x', y', hx', hy', hmerged⟩
    obtain rfl := Option.some.inj (hx.symm.trans hx')
    obtain rfl := Option.some.inj (hy.symm.trans hy')
    exact hmerged

def octetsType : SimpleType := .union [("hex", .scalar .hexBinary), ("base64", .scalar .base64Binary)]

def itemNode (value : String) : XmlNode := .element ⟨"", "item"⟩ [] [(⟨"", "code"⟩, value)] []

def twoItems : XmlNode := .element ⟨"", "list"⟩ [] [] [itemNode "0000", itemNode "AAA="]

def codeConstraint : UniqueConstraint where
  name := ⟨"", "codes"⟩
  selector := [⟨false, [⟨some "", some "item"⟩], none⟩]
  fields := [[⟨false, [], some ⟨some "", some "code"⟩⟩]]

def twoItemsCalls : List Call :=
  [.scope [] [codeConstraint], .record (.attribute ([0]) 0) octetsType (.member "hex" (.string "0000")),
    .record (.attribute ([1]) 0) octetsType (.member "base64" (.string "AAA="))]

def twoItemsValidation : IdentityValidation where
  root := twoItems
  values := Function.update (Function.update (fun _ => none) (.attribute ([0]) 0)
    (some ⟨octetsType, .member "hex" (.string "0000")⟩)) (.attribute ([1]) 0)
    (some ⟨octetsType, .member "base64" (.string "AAA=")⟩)
  constraints := [([], codeConstraint)]
  work := 3

def anyHost : Host := ⟨fun _ _ => true, fun _ _ => false⟩

theorem twoItems_decoded : ∀ call ∈ twoItemsCalls, Call.Decoded anyHost call := by
  have hdistinct : Distinct octetsType := by
    simp [octetsType, Distinct, DistinctMembers]
  have hselector : parseIdentityXPath "item" [] true = .ok codeConstraint.selector := by rfl
  have hfield : parseIdentityXPath "@code" [] false = .ok [⟨false, [], some ⟨some "", some "code"⟩⟩] := by rfl
  have hhex : decodeSimple anyHost octetsType "0000".toList [] = .ok (.member "hex" (.string "0000")) := by rfl
  have hbase64 : decodeSimple anyHost octetsType "AAA=".toList [] = .ok (.member "base64" (.string "AAA=")) := by rfl
  intro call hm
  simp only [twoItemsCalls, List.mem_cons, List.not_mem_nil, or_false] at hm
  rcases hm with rfl | rfl | rfl
  · intro constraint hc
    obtain rfl := List.mem_singleton.mp hc
    refine ⟨⟨"item", [], hselector⟩, fun field hf => ?_⟩
    obtain rfl := List.mem_singleton.mp hf
    exact ⟨"@code", [], hfield⟩
  · exact ⟨hdistinct, _, _, hhex⟩
  · exact ⟨hdistinct, _, _, hbase64⟩

theorem twoItems_run : run twoItems twoItemsCalls = .ok twoItemsValidation := by rfl

theorem twoItems_duplicate : twoItemsValidation.validate =
    .error ⟨.invalidValue, "Duplicate xs:unique tuple in \x7b\x7dcodes", .notSent⟩ := by rfl

theorem twoItems_nodes : (∀ node, twoItemsValidation.Picks ([], codeConstraint) node ↔ node = [0] ∨ node = [1]) ∧
    ∀ field ∈ codeConstraint.fields,
      (∀ target, twoItemsValidation.Selects field [0] target ↔ target = .attribute ([0]) 0) ∧
      ∀ target, twoItemsValidation.Selects field [1] target ↔ target = .attribute ([1]) 0 := by
  have hselector : ∀ path ∈ codeConstraint.selector, path.attribute_ = none := by decide
  have hnodes : twoItemsValidation.nodesOf ([], codeConstraint) = [[0], [1]] := by rfl
  refine ⟨fun node => ?_, fun field hm => ?_⟩
  · rw [← (select_nodes hselector).2.2 node, hnodes]
    simp
  · obtain rfl := List.mem_singleton.mp hm
    refine ⟨fun target => ?_, fun target => ?_⟩
    · rw [← mem_select]
      exact List.mem_singleton
    · rw [← mem_select]
      exact List.mem_singleton

end IdentityValidation

end WotAv.Xml
