import Mathlib.Data.Rat.Floor
import WotAv.Binding.Errors
import WotAv.Lib.Json
import WotAv.Lib.Numerals
import WotAv.Lib.RegExp
import WotAv.Lib.Separators
import WotAv.Lib.Throwing

/-!
# Bounded JSON (`assertJson` of `discovery/policy.ts`)

`assertJson` counts the nodes of a value and the bytes of its text, and stops
where a bound is exceeded.
-/

namespace WotAv.Discovery.BoundedJson

open WotAv.Binding (OnvifError)
open WotAv.Lib Throwing
open WotAv.Lib.Json (escape)
open WotAv.Lib.RegExp (isLead isTrail pairCodePoint)

-- Values

inductive Value
  | undefined
  | null
  | boolean (value : Bool)
  | number (value : FiniteNumber)
  | notFinite
  | bigint
  | symbol
  | string (units : List UInt16)
  | object (address : ℕ)

/-- A hole of an array is `none`. -/
inductive Object
  | array (iterable : Bool) (elements : List (Option Value))
  | record (plainPrototype : Bool) (symbols : ℕ) (members : List (List UInt16 × Value))

abbrev Heap := ℕ → Object

/-- `JSON.stringify` of the units of a string, without the quotes. -/
def stringifyUnits : List UInt16 → List Char
  | [] => []
  | [u] => stringifyUnit u
  | u :: v :: units =>
    if isLead u.toNat ∧ isTrail v.toNat then Char.ofNat (pairCodePoint u.toNat v.toNat) :: stringifyUnits units
    else stringifyUnit u ++ stringifyUnits (v :: units)
where
  stringifyUnit (u : UInt16) : List Char :=
    if isLead u.toNat ∨ isTrail u.toNat then '\\' :: 'u' :: Nat.toDigits 16 u.toNat else escape (Char.ofNat u.toNat)

def quote (units : List UInt16) : List Char := '"' :: stringifyUnits units ++ ['"']

def byteLength (text : List Char) : ℕ := (text.map Char.utf8Size).sum

-- The code

/-- Finite numbers, of which the callers leave some out. -/
structure Limits where
  maxNodes : ℚ := 20000
  maxDepth : ℚ := 64
  maxBytes : ℚ := 16 * 1024 * 1024

@[ext] structure Count where
  nodes : ℕ
  bytes : ℕ

inductive Failure
  | onvif (error : OnvifError)
  | typeError

abbrev M := Throwing Failure Count

def xmlLimit (message : String) : M Unit := throw (.onvif ⟨.xmlLimit, message, .notSent⟩)

def notJson : M Unit :=
  throw (.onvif ⟨.invalidValue, "Inspection data must be finite canonical JSON, not opaque runtime handles", .notSent⟩)

def add (b : Limits) (count : ℕ) : M Unit := do
  modify fun s => { s with bytes := s.bytes + count }
  let s ← get
  if s.bytes > b.maxBytes then xmlLimit "Canonical JSON exceeds its byte bound" else return

def text (b : Limits) (value : List UInt16) : M Unit := do
  let s ← get
  if value.length > b.maxBytes - s.bytes then xmlLimit "Canonical string exceeds its byte bound"
  else add b (byteLength (quote value))

def visit (b : Limits) (heap : Heap) (item : Value) (depth : ℕ) : M Unit := do
  modify fun s => { s with nodes := s.nodes + 1 }
  let s ← get
  if _h : s.nodes > b.maxNodes ∨ depth > b.maxDepth then xmlLimit "Canonical JSON exceeds its structural bound"
  else match item with
    | .null => add b 4
    | .string units => text b units
    | .boolean value => add b (if value then "true" else "false").length
    | .number value => add b value.toChars.length
    | .object address => match heap address with
      | .array iterable elements => do
        add b (2 + (elements.length - 1))
        if iterable then elements.forM fun child => visit b heap (child.getD .undefined) (depth + 1)
        else throw .typeError
      | .record plainPrototype symbols members =>
        if plainPrototype ∧ symbols = 0 then do
          add b (2 + (members.length - 1))
          members.forM fun (key, value) => do
            text b key
            add b 1
            visit b heap value (depth + 1)
        else notJson
    | .undefined | .notFinite | .bigint | .symbol => notJson
termination_by (⌊b.maxDepth⌋ + 1 - depth).toNat
decreasing_by
  all_goals
    have hdepth : (depth : ℤ) ≤ ⌊b.maxDepth⌋ := Int.le_floor.mpr (by push_cast; exact not_lt.mp (not_or.mp _h).2)
    omega

def assertJson (b : Limits) (heap : Heap) (value : Value) : Except Failure Unit × Count := visit b heap value 0 ⟨0, 0⟩

-- Plain values

/-- What there is of a plain value: its nodes, how deep they are nested, and the
text that `JSON.stringify` makes of it. -/
structure Plain where
  nodes : ℕ
  depth : ℕ
  text : List Char

def stringifyPrimitive : Value → Option (List Char)
  | .null => some "null".toList
  | .boolean value => some (if value then "true" else "false").toList
  | .number value => some value.toChars
  | .string units => some (quote units)
  | _ => none

def Plain.container (first last : Char) (keys : List (List Char)) (items : List Plain) : Plain where
  nodes := 1 + (items.map (·.nodes)).sum
  depth := (items.map (·.depth + 1)).foldr max 0
  text := first :: List.intercalate [','] (keys.zipWith (fun key item => key ++ item.text) items) ++ [last]

def Accepts (b : Limits) (plain : Plain) : Prop :=
  plain.nodes ≤ b.maxNodes ∧ plain.depth ≤ b.maxDepth ∧ byteLength plain.text ≤ b.maxBytes

def Object.parts : Object → Option ((Char × Char) × List (List Char) × List Value)
  | .array true elements => some (('[', ']'), elements.map fun _ => [], elements.map (·.getD .undefined))
  | .record true 0 members =>
    some (('{', '}'), members.map fun member => quote member.1 ++ [':'], members.map fun member => member.2)
  | _ => none

inductive IsPlain (heap : Heap) : Value → Plain → Prop
  | primitive : stringifyPrimitive value = some chars → IsPlain heap value ⟨1, 0, chars⟩
  | container : (heap address).parts = some ((first, last), keys, values) → List.Forall₂ (IsPlain heap) values items →
      IsPlain heap (.object address) (.container first last keys items)

-- What a part of the code costs

namespace Count

instance : Add Count := ⟨fun s c => ⟨s.nodes + c.nodes, s.bytes + c.bytes⟩⟩

instance : Zero Count := ⟨⟨0, 0⟩⟩

@[simp] theorem add_zero (s : Count) : s + 0 = s := rfl

@[simp] theorem add_nodes (s c : Count) : (s + c).nodes = s.nodes + c.nodes := rfl

@[simp] theorem add_bytes (s c : Count) : (s + c).bytes = s.bytes + c.bytes := rfl

theorem zero_add (c : Count) : ⟨0, 0⟩ + c = c := Count.ext (Nat.zero_add _) (Nat.zero_add _)

theorem add_left_cancel {s c d : Count} (h : s + c = s + d) : c = d :=
  Count.ext (Nat.add_left_cancel (congrArg nodes h)) (Nat.add_left_cancel (congrArg bytes h))

theorem add_assoc (s c d : Count) : s + c + d = s + (c + d) := Count.ext (Nat.add_assoc ..) (Nat.add_assoc ..)

end Count

def Within (b : Limits) (s : Count) : Prop := s.nodes ≤ b.maxNodes ∧ s.bytes ≤ b.maxBytes

/-- Returns if what it costs is within the limits, and stops early if not. -/
structure Costs (b : Limits) (m : M Unit) (C : Count → Prop) : Prop where
  returns : ∀ {s s'}, m s = (.ok (), s') → ∃ c, C c ∧ s' = s + c ∧
    (c.nodes = 0 ∨ s'.nodes ≤ b.maxNodes) ∧ (c.bytes = 0 ∨ s'.bytes ≤ b.maxBytes)
  runs : ∀ {s c}, C c → Within b (s + c) → m s = (.ok (), s + c)
  stops : ∀ {s}, s.nodes ≤ max b.maxNodes 0 → (m s).2.nodes ≤ max b.maxNodes 0 + 1

variable {b : Limits} {m n : M Unit} {C D : Count → Prop}

theorem Within.left {s c d : Count} (h : Within b (s + (c + d))) : Within b (s + c) := by
  obtain ⟨hn, hb⟩ := h
  simp only [Count.add_nodes, Count.add_bytes, Nat.cast_add] at hn hb
  have hd : (0 : ℚ) ≤ d.nodes := Nat.cast_nonneg _
  have hd' : (0 : ℚ) ≤ d.bytes := Nat.cast_nonneg _
  constructor <;> simp only [Count.add_nodes, Count.add_bytes, Nat.cast_add] <;> linarith

theorem spent {s x y : ℕ} {limit : ℚ} (hx : x = 0 ∨ ↑(s + x) ≤ limit) (hy : y = 0 ∨ ↑(s + x + y) ≤ limit) :
    x + y = 0 ∨ ↑(s + x + y) ≤ limit := by
  rcases hy with rfl | hy
  · exact hx
  · exact .inr hy

theorem started {s x : ℕ} {limit : ℚ} (hs : s ≤ max limit 0) (hx : x = 0 ∨ ↑(s + x) ≤ limit) :
    ↑(s + x) ≤ max limit 0 := by
  rcases hx with rfl | hx
  · exact hs
  · exact hx.trans (le_max_left _ _)

namespace Costs

theorem congr (h : Costs b m C) (hC : ∀ c, C c ↔ D c) : Costs b m D := by
  have : C = D := funext fun c => propext (hC c)
  exact this ▸ h

theorem bind (hm : Costs b m C) (hn : Costs b n D) : Costs b (do m; n) fun c => ∃ x y, C x ∧ D y ∧ c = x + y where
  returns {s s'} h := by
    rw [run_bind] at h
    cases hr : m s with
    | mk r t =>
      rw [hr] at h
      cases r with
      | error e => cases h
      | ok u =>
        obtain ⟨x, hx, rfl, hxn, hxb⟩ := hm.returns hr
        obtain ⟨y, hy, rfl, hyn, hyb⟩ := hn.returns h
        exact ⟨x + y, ⟨x, y, hx, hy, rfl⟩, Count.add_assoc .., spent hxn hyn, spent hxb hyb⟩
  runs {s c} hc hw := by
    obtain ⟨x, y, hx, hy, rfl⟩ := hc
    rw [run_bind, hm.runs hx hw.left]
    rw [← Count.add_assoc] at hw ⊢
    exact hn.runs hy hw
  stops {s} hs := by
    rw [run_bind]
    have hstop := hm.stops hs
    cases hr : m s with
    | mk r t =>
      cases r with
      | error e => rwa [hr] at hstop
      | ok u =>
        obtain ⟨x, -, rfl, hxn, -⟩ := hm.returns hr
        exact hn.stops (started hs hxn)

theorem return_ : Costs b (pure ()) (· = 0) where
  returns h := ⟨0, rfl, (Prod.mk.inj h).2.symm, .inl rfl, .inl rfl⟩
  runs hc _ := hc ▸ rfl
  stops hs := hs.trans (le_add_of_nonneg_right zero_le_one)

theorem never {x : Count} (hm : ∀ s, ∃ e, m s = (.error e, s + x)) (hx : x.nodes ≤ 1) : Costs b m fun _ => False where
  returns {s s'} h := by
    obtain ⟨e, he⟩ := hm s
    rw [he] at h
    cases h
  runs hc _ := hc.elim
  stops {s} hs := by
    obtain ⟨e, he⟩ := hm s
    have hx' : (x.nodes : ℚ) ≤ 1 := mod_cast hx
    rw [he, Count.add_nodes, Nat.cast_add]
    exact add_le_add hs hx'

theorem throw_ (e : Failure) : Costs b (throw e) fun _ => False := @never b _ 0 (fun _ => ⟨e, rfl⟩) (Nat.zero_le 1)

theorem forM {α : Type} {f : α → M Unit} {C : α → Count → Prop} (hf : ∀ a, Costs b (f a) (C a)) : ∀ l : List α,
    Costs b (l.forM f) fun c => ∃ cs, List.Forall₂ C l cs ∧ c = cs.sum
  | [] => return_.congr fun c => by simp
  | a :: l => by
    refine ((hf a).bind (forM hf l)).congr fun c => ?_
    simp only [List.forall₂_cons_left_iff]
    constructor
    · rintro ⟨x, _, hx, ⟨cs, hcs, rfl⟩, rfl⟩
      exact ⟨_, ⟨x, cs, hx, hcs, rfl⟩, List.sum_cons.symm⟩
    · rintro ⟨_, ⟨x, cs, hx, hcs, rfl⟩, rfl⟩
      exact ⟨x, _, hx, ⟨cs, hcs, rfl⟩, List.sum_cons⟩

theorem spend {x : Count} {P : Count → Prop} [DecidablePred P] {message : String} (hm : Costs b m C) (hx : x.nodes ≤ 1)
    (hP : ∀ s, ¬P s → (x.nodes = 0 ∨ s.nodes ≤ b.maxNodes) ∧ (x.bytes = 0 ∨ s.bytes ≤ b.maxBytes))
    (hw : ∀ s, Within b s → ¬P s) : Costs b (do
      modify (· + x)
      let s ← get
      if P s then xmlLimit message else m) fun c => ∃ y, C y ∧ c = x + y where
  returns {s s'} h := by
    rw [run_modify_bind, run_get_bind] at h
    split at h
    · cases h
    · rename_i hno
      obtain ⟨y, hy, rfl, hyn, hyb⟩ := hm.returns h
      obtain ⟨hxn, hxb⟩ := hP _ hno
      exact ⟨x + y, ⟨y, hy, rfl⟩, Count.add_assoc .., spent hxn hyn, spent hxb hyb⟩
  runs {s c} hc hin := by
    obtain ⟨y, hy, rfl⟩ := hc
    rw [run_modify_bind, run_get_bind, if_neg (hw _ hin.left)]
    rw [← Count.add_assoc] at hin ⊢
    exact hm.runs hy hin
  stops {s} hs := by
    rw [run_modify_bind, run_get_bind]
    split
    · exact (@never b (modify (· + x) >>= fun _ => xmlLimit message) x (fun _ => ⟨_, rfl⟩) hx).stops hs
    · rename_i hno
      exact hm.stops (started hs (hP _ hno).1)

theorem add (count : ℕ) : Costs b (BoundedJson.add b count) (· = ⟨0, count⟩) :=
  (@spend b _ _ ⟨0, count⟩ (fun s => s.bytes > b.maxBytes) _ _ return_ (Nat.zero_le 1)
    (fun _ h => ⟨.inl rfl, .inr (not_lt.mp h)⟩) fun _ h => not_lt.mpr h.2).congr fun c => by simp

theorem check {P : Count → Prop} [DecidablePred P] {message : String} (hm : Costs b m C)
    (hP : ∀ s c, C c → Within b (s + c) → ¬P s) : Costs b (do
      let s ← get
      if P s then xmlLimit message else m) C where
  returns h := by
    rw [run_get_bind] at h
    split at h
    · cases h
    · exact hm.returns h
  runs {s c} hc hw := by
    rw [run_get_bind, if_neg (hP s c hc hw)]
    exact hm.runs hc hw
  stops {s} hs := by
    rw [run_get_bind]
    split
    · exact (throw_ _).stops hs
    · exact hm.stops hs

end Costs

-- Texts

@[simp] theorem byteLength_append (text text' : List Char) :
    byteLength (text ++ text') = byteLength text + byteLength text' := by
  simp [byteLength]

@[simp] theorem byteLength_cons (c : Char) (text : List Char) :
    byteLength (c :: text) = c.utf8Size + byteLength text := rfl

theorem byteLength_ascii {text : List Char} (h : ∀ c ∈ text, c.utf8Size = 1) : byteLength text = text.length := by
  rw [byteLength, List.map_congr_left h]
  simp

theorem numeral_utf8Size {c : Char} (h : FiniteNumber.isNumeral c) : c.utf8Size = 1 := by
  simp only [FiniteNumber.isNumeral, Bool.or_eq_true, decide_eq_true_eq] at h
  rcases h with (((h | rfl) | rfl) | rfl) | rfl
  · exact Char.utf8Size_eq_one_iff.mpr (UInt32.le_iff_toNat_le.mpr ((isDigit_iff_toNat.mp h).2.trans (by decide)))
  all_goals rfl

theorem length_le_byteLength (text : List Char) : text.length ≤ byteLength text := by
  induction text with
  | nil => exact Nat.zero_le _
  | cons c text ih =>
    have := c.utf8Size_pos
    rw [List.length_cons, byteLength_cons]
    omega

theorem byteLength_intercalate (texts : List (List Char)) :
    byteLength (List.intercalate [','] texts) = (texts.map byteLength).sum + (texts.length - 1) :=
  (sum_intercalate _ _ _).trans (congrArg (_ + ·) (Nat.one_mul _))

theorem pair_utf8Size {u v : ℕ} (hu : isLead u) (hv : isTrail v) : 2 ≤ (Char.ofNat (pairCodePoint u v)).utf8Size := by
  obtain ⟨hu, hu'⟩ := hu
  obtain ⟨hv, hv'⟩ := hv
  have hvalid : (pairCodePoint u v).isValidChar := .inr (by unfold pairCodePoint; omega)
  have hcode : 65536 ≤ (Char.ofNat (pairCodePoint u v)).toNat := by
    rw [Char.ofNat, dif_pos hvalid]
    change 65536 ≤ pairCodePoint u v
    unfold pairCodePoint
    omega
  by_contra hlt
  have hone : (Char.ofNat (pairCodePoint u v)).utf8Size = 1 := by
    have := (Char.ofNat (pairCodePoint u v)).utf8Size_pos
    omega
  have hsmall := UInt32.le_iff_toNat_le.mp (Char.utf8Size_eq_one_iff.mp hone)
  exact absurd (hcode.trans hsmall) (by decide)

theorem length_le_units (units : List UInt16) : units.length ≤ byteLength (stringifyUnits units) := by
  have hunit (u : UInt16) : 1 ≤ byteLength (stringifyUnits.stringifyUnit u) := by
    refine le_trans ?_ (length_le_byteLength _)
    unfold stringifyUnits.stringifyUnit escape
    split
    · simp
    · split_ifs <;> simp
  fun_induction stringifyUnits units with
  | case1 => exact Nat.zero_le _
  | case2 u => exact hunit u
  | case3 u v units h ih =>
    have := pair_utf8Size h.1 h.2
    simp only [List.length_cons, byteLength_cons]
    omega
  | case4 u v units _ ih =>
    have := hunit u
    simp only [List.length_cons, byteLength_append] at ih ⊢
    omega

theorem Costs.text (value : List UInt16) : Costs b (BoundedJson.text b value) (· = ⟨0, byteLength (quote value)⟩) := by
  refine (Costs.add _).check ?_
  rintro s _ rfl ⟨-, hb⟩
  have hlength : value.length ≤ byteLength (quote value) := (length_le_units value).trans (by
    simp only [quote, List.cons_append, byteLength_cons, byteLength_append]
    omega)
  have hcast : (value.length : ℚ) ≤ byteLength (quote value) := mod_cast hlength
  simp only [Count.add_bytes, Nat.cast_add] at hb
  exact not_lt.mpr (by linarith)

-- The nodes of a value

def Plain.count (plain : Plain) : Count := ⟨plain.nodes, byteLength plain.text⟩

variable {heap : Heap} {depth address : ℕ} {first last : Char} {keys : List (List Char)} {items : List Plain}

theorem container_depth (hd : depth ≤ b.maxDepth) :
    (depth + (Plain.container first last keys items).depth : ℕ) ≤ b.maxDepth ↔
      ∀ item ∈ items, (depth + 1 + item.depth : ℕ) ≤ b.maxDepth := by
  change (depth + (items.map (·.depth + 1)).foldr max 0 : ℕ) ≤ b.maxDepth ↔ _
  induction items with
  | nil => simpa using hd
  | cons item items ih =>
    rw [List.forall_mem_cons, ← ih, List.map_cons, List.foldr_cons, ← Nat.add_max_add_left, Nat.cast_max, max_le_iff,
      Nat.add_right_comm depth 1, Nat.add_assoc depth]

theorem forall₂_costs {α : Type} {value : α → Value} {key : α → List Char} {Q : Plain → Prop} {c : Count} (l : List α) :
    (∃ cs, List.Forall₂ (fun a c => ∃ item, IsPlain heap (value a) item ∧ Q item ∧
      c = ⟨item.nodes, byteLength (key a ++ item.text)⟩) l cs ∧ c = cs.sum) ↔
    ∃ items, List.Forall₂ (IsPlain heap) (l.map value) items ∧ (∀ item ∈ items, Q item) ∧
      c = ⟨(items.map (·.nodes)).sum,
        (((l.map key).zipWith (fun key item => key ++ item.text) items).map byteLength).sum⟩ := by
  induction l generalizing c with
  | nil =>
    simp
    rfl
  | cons a l ih =>
    simp only [List.forall₂_cons_left_iff, List.map_cons]
    constructor
    · rintro ⟨_, ⟨_, cs, ⟨item, hitem, hk, rfl⟩, hcs, rfl⟩, rfl⟩
      obtain ⟨items, hitems, hks, hsum⟩ := ih.mp ⟨cs, hcs, rfl⟩
      refine ⟨_, ⟨item, items, hitem, hitems, rfl⟩, List.forall_mem_cons.mpr ⟨hk, hks⟩, ?_⟩
      rw [List.sum_cons, hsum]
      rfl
    · rintro ⟨_, ⟨item, items, hitem, hitems, rfl⟩, hk, rfl⟩
      obtain ⟨hk, hks⟩ := List.forall_mem_cons.mp hk
      obtain ⟨cs, hcs, hsum⟩ := ih.mpr ⟨items, hitems, hks, rfl⟩
      refine ⟨_, ⟨_, cs, ⟨item, hitem, hk, rfl⟩, hcs, rfl⟩, ?_⟩
      rw [List.sum_cons, ← hsum]
      rfl

theorem container_count (hfirst : first.utf8Size = 1) (hlast : last.utf8Size = 1) (h : keys.length = items.length) :
    (Plain.container first last keys items).count = ⟨1, 0⟩ + (⟨0, 2 + (keys.length - 1)⟩ + ⟨(items.map (·.nodes)).sum,
      ((keys.zipWith (fun key item => key ++ item.text) items).map byteLength).sum⟩) := by
  ext
  · exact (congrArg (1 + ·) (Nat.zero_add _)).symm
  · simp only [Plain.count, Plain.container, List.cons_append, byteLength_cons, byteLength_append, byteLength_intercalate,
      hfirst, hlast, List.length_zipWith, h, min_self, Count.add_bytes]
    change _ + (_ + (1 + 0)) = _
    omega

def Below (b : Limits) (heap : Heap) (item : Value) (depth : ℕ) (c : Count) : Prop :=
  ∃ plain, IsPlain heap item plain ∧ (depth + plain.depth : ℕ) ≤ b.maxDepth ∧ c = plain.count

variable {item : Value}

theorem IsPlain.count_ne_zero {plain : Plain} (h : IsPlain heap item plain) :
    plain.count.nodes ≠ 0 ∧ plain.count.bytes ≠ 0 := by
  have htext : plain.text ≠ [] := by
    cases h with
    | primitive h =>
      cases item <;> cases h
      · exact List.cons_ne_nil _ _
      · split <;> exact List.cons_ne_nil _ _
      · exact FiniteNumber.toChars_ne_nil _
      · exact List.cons_ne_nil _ _
    | container => exact List.cons_ne_nil _ _
  have hbytes := (List.length_pos_of_ne_nil htext).trans_le (length_le_byteLength _)
  refine ⟨?_, hbytes.ne'⟩
  cases h <;> simp [Plain.count, Plain.container]

theorem primitive_count (chars : List Char) : (⟨1, 0⟩ : Count) + ⟨0, byteLength chars⟩ = Plain.count ⟨1, 0, chars⟩ :=
  Count.ext rfl (Nat.zero_add _)

theorem Costs.primitive {chars : List Char} (hd : depth ≤ b.maxDepth) (ht : stringifyPrimitive item = some chars)
    (hm : Costs b m (· = ⟨0, byteLength chars⟩)) : Costs b m fun y => Below b heap item depth (⟨1, 0⟩ + y) := by
  refine hm.congr fun y => ⟨?_, ?_⟩
  · rintro rfl
    exact ⟨_, .primitive ht, hd, primitive_count chars⟩
  · rintro ⟨plain, hplain, -, hy⟩
    cases hplain with
    | primitive ht' =>
      cases ht.symm.trans ht'
      exact Count.add_left_cancel (hy.trans (primitive_count chars).symm)
    | container => cases ht

theorem isPlain_object {plain : Plain} (h : (heap address).parts = some ((first, last), keys, values)) :
    IsPlain heap (.object address) plain ↔
      ∃ items, List.Forall₂ (IsPlain heap) values items ∧ plain = .container first last keys items := by
  constructor
  · intro hplain
    cases hplain with
    | primitive h' => cases h'
    | container h' hitems =>
      cases h.symm.trans h'
      exact ⟨_, hitems, rfl⟩
  · rintro ⟨items, hitems, rfl⟩
    exact .container h hitems

theorem member_count (key : List UInt16) (plain : Plain) :
    ⟨plain.nodes, byteLength ((quote key ++ [':']) ++ plain.text)⟩ =
      (⟨0, byteLength (quote key)⟩ + (⟨0, 1⟩ + plain.count) : Count) := by
  ext
  · simp [Plain.count]
  · simp only [byteLength_append, Count.add_bytes, Plain.count, Nat.add_assoc]
    rfl

theorem Costs.container {α : Type} {f : α → M Unit} {value : α → Value} {key : α → List Char} (hd : depth ≤ b.maxDepth)
    (hf : ∀ a, Costs b (f a) fun c => ∃ item, IsPlain heap (value a) item ∧ (depth + 1 + item.depth : ℕ) ≤ b.maxDepth ∧
      c = ⟨item.nodes, byteLength (key a ++ item.text)⟩) {l : List α} (hfirst : first.utf8Size = 1)
    (hlast : last.utf8Size = 1) (hparts : (heap address).parts = some ((first, last), l.map key, l.map value)) :
    Costs b (do
      BoundedJson.add b (2 + (l.length - 1))
      l.forM f) fun y => Below b heap (.object address) depth (⟨1, 0⟩ + y) := by
  refine ((Costs.add _).bind (Costs.forM hf l)).congr fun y => ?_
  have hcount {items : List Plain} (h : List.Forall₂ (IsPlain heap) (l.map value) items) :=
    @container_count first last (l.map key) items hfirst hlast (by simpa using h.length_eq)
  simp only [forall₂_costs, Below, isPlain_object hparts]
  constructor
  · rintro ⟨_, _, rfl, ⟨items, hitems, hdepth, rfl⟩, rfl⟩
    exact ⟨_, ⟨items, hitems, rfl⟩, (container_depth hd).mpr hdepth, by rw [hcount hitems, List.length_map]⟩
  · rintro ⟨_, ⟨items, hitems, rfl⟩, hdepth, hy⟩
    rw [hcount hitems, List.length_map] at hy
    exact ⟨_, _, rfl, ⟨items, hitems, (container_depth hd).mp hdepth, rfl⟩, Count.add_left_cancel hy⟩

theorem Costs.refused (hm : Costs b m fun _ => False) (h : ∀ plain, ¬IsPlain heap item plain) :
    Costs b m fun y => Below b heap item depth (⟨1, 0⟩ + y) :=
  hm.congr fun _ => ⟨False.elim, fun ⟨plain, hplain, _⟩ => h plain hplain⟩

theorem not_isPlain_object (h : (heap address).parts = none) (plain : Plain) : ¬IsPlain heap (.object address) plain := by
  intro hplain
  cases hplain with
  | primitive h' => cases h'
  | container h' => cases h.symm.trans h'

theorem visit_costs (levels : ℕ) : ∀ (item : Value) (depth : ℕ), (⌊b.maxDepth⌋ + 1 - depth).toNat = levels →
    Costs b (visit b heap item depth) (Below b heap item depth) := by
  have hfloor (n : ℕ) : n ≤ b.maxDepth ↔ (n : ℤ) ≤ ⌊b.maxDepth⌋ := by rw [Int.le_floor, Int.cast_natCast]
  induction levels with
  | zero =>
    intro item depth hlevels
    have hd : ¬depth ≤ b.maxDepth := by
      rw [hfloor]
      omega
    have hstops (s : Count) : ∃ e, visit b heap item depth s = (.error e, s + ⟨1, 0⟩) := by
      rw [visit.eq_def, run_modify_bind, run_get_bind, dif_pos (.inr (not_le.mp hd))]
      exact ⟨_, rfl⟩
    refine (Costs.never hstops le_rfl).congr fun c => ⟨False.elim, ?_⟩
    rintro ⟨plain, -, hle, -⟩
    exact hd (le_trans (mod_cast Nat.le_add_right ..) hle)
  | succ levels ih =>
    intro item depth hlevels
    have hd : depth ≤ b.maxDepth := by
      rw [hfloor]
      omega
    rw [visit.eq_def]
    simp only [dite_eq_ite]
    refine (@Costs.spend b _ (fun y => Below b heap item depth (⟨1, 0⟩ + y)) ⟨1, 0⟩
      (fun s => s.nodes > b.maxNodes ∨ depth > b.maxDepth) _ _ ?_ le_rfl
      (fun _ h => ⟨.inr (not_lt.mp (not_or.mp h).1), .inl rfl⟩)
      fun _ h => not_or.mpr ⟨not_lt.mpr h.1, not_lt.mpr hd⟩).congr fun c => ⟨?_, ?_⟩
    · cases item with
      | null => exact .primitive hd rfl (.add 4)
      | boolean value => exact .primitive hd rfl (by cases value <;> exact .add _)
      | number value =>
        refine .primitive hd rfl ?_
        rw [byteLength_ascii fun c hc => numeral_utf8Size (value.toChars_numeral c hc)]
        exact .add _
      | string units => exact .primitive hd rfl (.text units)
      | undefined => exact .refused (.throw_ _) nofun
      | notFinite => exact .refused (.throw_ _) nofun
      | bigint => exact .refused (.throw_ _) nofun
      | symbol => exact .refused (.throw_ _) nofun
      | object address =>
        have hchild (value : Value) := ih value (depth + 1) (by omega)
        dsimp only
        cases hobject : heap address with
        | array iterable elements =>
          cases iterable with
          | false =>
            refine Costs.refused (((Costs.add _).bind (Costs.throw_ .typeError)).congr ?_)
              (not_isPlain_object (by rw [hobject]; rfl))
            exact fun _ => ⟨fun ⟨_, _, _, h, _⟩ => h, False.elim⟩
          | true =>
            exact .container hd (fun child => hchild (child.getD .undefined)) rfl rfl (by rw [hobject]; rfl)
        | record plainPrototype symbols members =>
          dsimp only
          split
          · rename_i hproto
            obtain ⟨rfl, rfl⟩ := hproto
            refine .container hd (fun member => ?_) rfl rfl (by rw [hobject]; rfl)
            refine ((Costs.text _).bind ((Costs.add 1).bind (hchild member.2))).congr fun c => ?_
            constructor
            · rintro ⟨_, _, rfl, ⟨_, _, rfl, ⟨plain, hplain, hdepth, rfl⟩, rfl⟩, rfl⟩
              exact ⟨plain, hplain, hdepth, (member_count _ _).symm⟩
            · rintro ⟨plain, hplain, hdepth, rfl⟩
              exact ⟨_, _, rfl, ⟨_, _, rfl, ⟨plain, hplain, hdepth, rfl⟩, rfl⟩, member_count _ _⟩
          · rename_i hproto
            refine .refused (.throw_ _) (not_isPlain_object ?_)
            rw [hobject]
            unfold Object.parts
            split
            · cases ‹_ = _›
            · rename_i heq
              cases heq
              exact absurd ⟨rfl, rfl⟩ hproto
            · rfl
    · rintro ⟨y, hy, rfl⟩
      exact hy
    · rintro ⟨plain, hplain, hle, rfl⟩
      have hy : plain.count = ⟨1, 0⟩ + ⟨plain.nodes - 1, byteLength plain.text⟩ :=
        Count.ext (Nat.add_sub_of_le (Nat.pos_of_ne_zero hplain.count_ne_zero.1)).symm (Nat.zero_add _).symm
      exact ⟨_, ⟨plain, hplain, hle, hy.symm⟩, hy⟩

-- The whole check

variable {value : Value} {plain : Plain}

theorem assertJson_ok (h : (assertJson b heap value).1 = .ok ()) : ∃ plain, IsPlain heap value plain ∧
    Accepts b plain ∧ (assertJson b heap value).2 = plain.count := by
  obtain ⟨_, ⟨plain, hplain, hdepth, rfl⟩, hs, hn, hb⟩ := (visit_costs _ value 0 rfl).returns (Prod.ext h rfl)
  have hcount : (assertJson b heap value).2 = plain.count := hs.trans (Count.zero_add _)
  obtain ⟨hnodes, hbytes⟩ := hplain.count_ne_zero
  change plain.count.nodes = 0 ∨ (assertJson b heap value).2.nodes ≤ b.maxNodes at hn
  change plain.count.bytes = 0 ∨ (assertJson b heap value).2.bytes ≤ b.maxBytes at hb
  rw [hcount] at hn hb
  rw [Nat.zero_add] at hdepth
  exact ⟨plain, hplain, ⟨hn.resolve_left hnodes, hdepth, hb.resolve_left hbytes⟩, hcount⟩

theorem assertJson_accepts (hplain : IsPlain heap value plain) (h : Accepts b plain) :
    assertJson b heap value = (.ok (), plain.count) := by
  obtain ⟨hn, hd, hb⟩ := h
  have hwithin : Within b (⟨0, 0⟩ + plain.count) := by
    rw [Count.zero_add]
    exact ⟨hn, hb⟩
  have hruns := (visit_costs _ value 0 rfl).runs ⟨plain, hplain, by rwa [Nat.zero_add], rfl⟩ hwithin
  rwa [Count.zero_add] at hruns

theorem IsPlain.count_unique {other : Plain} (h : IsPlain heap value plain) (h' : IsPlain heap value other) :
    plain.count = other.count := by
  let b : Limits := ⟨(plain.nodes + other.nodes : ℕ), (plain.depth + other.depth : ℕ),
    (byteLength plain.text + byteLength other.text : ℕ)⟩
  have hruns := @assertJson_accepts b _ _ _ h ⟨Nat.cast_le.mpr (Nat.le_add_right ..), Nat.cast_le.mpr (Nat.le_add_right ..),
    Nat.cast_le.mpr (Nat.le_add_right ..)⟩
  have hruns' := @assertJson_accepts b _ _ _ h' ⟨Nat.cast_le.mpr (Nat.le_add_left ..), Nat.cast_le.mpr (Nat.le_add_left ..),
    Nat.cast_le.mpr (Nat.le_add_left ..)⟩
  exact (Prod.mk.inj (hruns.symm.trans hruns')).2

theorem parts_length {object : Object} {brackets : Char × Char} {values : List Value}
    (h : object.parts = some (brackets, keys, values)) : keys.length = values.length := by
  unfold Object.parts at h
  split at h <;> cases h <;> simp

theorem container_text {values : List Value} (hitems : List.Forall₂ (IsPlain heap) values items)
    (h : keys.length = items.length) (hv : value ∈ values) : ∃ item, IsPlain heap value item ∧
      byteLength item.text ≤ ((keys.zipWith (fun key item => key ++ item.text) items).map byteLength).sum := by
  induction hitems generalizing keys with
  | nil => cases hv
  | @cons v item values items hitem _ ih =>
    obtain _ | ⟨key, keys⟩ := keys
    · cases h
    rw [List.zipWith_cons_cons, List.map_cons, List.sum_cons, byteLength_append]
    rcases List.mem_cons.mp hv with rfl | hv
    · exact ⟨item, hitem, by omega⟩
    · obtain ⟨item', hitem', hle⟩ := ih (Nat.succ.inj h) hv
      exact ⟨item', hitem', by omega⟩

end WotAv.Discovery.BoundedJson
