import Mathlib.Data.Finset.Card
import Mathlib.Order.Interval.Finset.Nat
import WotAv.Contract.PortableRegex

/-!
# What a search finds

`Node.Ends` is the relation a parsed pattern stands for; `evaluate` computes
its ends from a start, whatever it shares through the cache, and leaves early
only where `tick` raises.
-/

namespace WotAv.Contract

open WotAv.Lib

-- The relation

section
variable (value : List Char)

mutual

/-- From where to where a node may match. Reversed bounds would repeat as often
as the minimum says. -/
def Node.Ends : Node → ℕ → ℕ → Prop
  | .empty => Eq
  | .startAnchor => fun x y => x = 0 ∧ x = y
  | .endAnchor => fun x y => x = value.length ∧ x = y
  | .char p => fun x y => (∃ c, value[x]? = some c ∧ accepts p c = true) ∧ y = x + 1
  | .alt items => AltEnds items
  | .seq items => SeqEnds items
  | .repetition child minimum maximum => Repeated child.Ends minimum (maximum.map (max minimum))

def AltEnds : List Node → ℕ → ℕ → Prop
  | [] => fun _ _ => False
  | child :: items => fun x y => child.Ends x y ∨ AltEnds items x y

def SeqEnds : List Node → ℕ → ℕ → Prop
  | [] => Eq
  | child :: items => fun x z => ∃ y, child.Ends x y ∧ SeqEnds items y z

end

variable {value}

mutual

theorem Node.Ends.forward : ∀ node : Node, Matcher.Forward value.length (node.Ends value)
  | .empty => Matcher.skip_decides.forward
  | .startAnchor => by
    rintro x _ hx ⟨-, rfl⟩
    exact ⟨le_rfl, hx⟩
  | .endAnchor => by
    rintro x _ hx ⟨-, rfl⟩
    exact ⟨le_rfl, hx⟩
  | .char p => by
    rintro x _ _ ⟨⟨c, hc, -⟩, rfl⟩
    exact ⟨Nat.le_succ x, (List.getElem?_eq_some_iff.mp hc).1⟩
  | .alt items => AltEnds.forward items
  | .seq items => SeqEnds.forward items
  | .repetition child minimum maximum => by
    rintro x y hx ⟨k, -, -, ht⟩
    exact (Node.Ends.forward child).times k x y hx ht

theorem AltEnds.forward : ∀ items : List Node, Matcher.Forward value.length (AltEnds value items)
  | [] => nofun
  | child :: items => by
    rintro x y hx (h | h)
    · exact Node.Ends.forward child x y hx h
    · exact AltEnds.forward items x y hx h

theorem SeqEnds.forward : ∀ items : List Node, Matcher.Forward value.length (SeqEnds value items)
  | [] => Matcher.skip_decides.forward
  | child :: items => by
    rintro x z hx ⟨y, h, hs⟩
    obtain ⟨hxy, hy⟩ := Node.Ends.forward child x y hx h
    obtain ⟨hyz, hz⟩ := SeqEnds.forward items y z hy hs
    exact ⟨hxy.trans hyz, hz⟩

end

end

-- Loops over sets of positions

section
variable {ε σ : Type} {I : Memory σ → Prop} {R : Stop ε → Prop} {f : ℕ → Search ε σ (List ℕ)} {r : ℕ → ℕ → Prop}
  {n start : ℕ}

def Computes (I : Memory σ → Prop) (R : Stop ε → Prop) (f : ℕ → Search ε σ (List ℕ)) (r : ℕ → ℕ → Prop) (n : ℕ) :
    Prop := ∀ x ≤ n, Throwing.Yields I R (f x) fun ends => ∀ y, y ∈ ends ↔ r x y

theorem unionOver_yields (hf : Computes I R f r n) {positions : List ℕ} (hn : ∀ x ∈ positions, x ≤ n) :
    Throwing.Yields I R (unionOver f positions) fun ends => ∀ y, y ∈ ends ↔ ∃ x ∈ positions, r x y := by
  induction positions with
  | nil => exact .pure (by simp)
  | cons x positions ih =>
    refine (hf x (hn x (by simp))).bind fun ends hends => ?_
    refine (ih fun x' hx' => hn x' (by simp [hx'])).bind fun others hothers => .pure fun y => ?_
    simp [List.mem_union_iff, hends, hothers]

def Layer (r : ℕ → ℕ → Prop) (start k : ℕ) (frontier : List ℕ) : Prop := ∀ y, y ∈ frontier ↔ Times r k start y

variable {k : ℕ} {frontier : List ℕ}

theorem Layer.bounded (hr : Matcher.Forward n r) (h : Layer r start k frontier)
    (hs : start ≤ n) : ∀ x ∈ frontier, x ≤ n :=
  fun x hx => (hr.times k start x hs ((h x).mp hx)).2

theorem Layer.next {frontier ends : List ℕ} (h : Layer r start k frontier)
    (he : ∀ y, y ∈ ends ↔ ∃ x ∈ frontier, r x y) : Layer r start (k + 1) ends := by
  intro y
  rw [he, times_succ']
  simp only [h _]

theorem iterate_yields (hf : Computes I R f r n) (hr : Matcher.Forward n r) (hs : start ≤ n) (count : ℕ) (h : Layer r start k frontier) :
    Throwing.Yields I R (iterate f count frontier) (Layer r start (k + count)) := by
  induction count generalizing k frontier with
  | zero => exact .pure h
  | succ count ih =>
    refine (unionOver_yields hf (h.bounded hr hs)).bind fun ends hends => ?_
    have hn := ih (h.next hends)
    rwa [Nat.add_right_comm, Nat.add_assoc] at hn

/-- What `extend` has found after the layers up to `k`. -/
def Layers (r : ℕ → ℕ → Prop) (start low k : ℕ) (result : List ℕ) : Prop :=
  ∀ y, y ∈ result ↔ ∃ j, low ≤ j ∧ j ≤ k ∧ Times r j start y

theorem Layers.next {low k : ℕ} {result frontier : List ℕ} (h : Layers r start low k result)
    (hk : low ≤ k + 1) (hf : Layer r start (k + 1) frontier) : Layers r start low (k + 1) (result ∪ frontier) := by
  intro y
  rw [List.mem_union_iff, h, hf]
  constructor
  · rintro (⟨j, hl, hj, ht⟩ | ht)
    · exact ⟨j, hl, hj.trans (Nat.le_succ k), ht⟩
    · exact ⟨k + 1, hk, le_rfl, ht⟩
  · rintro ⟨j, hl, hj, ht⟩
    rcases Nat.le_succ_iff.mp hj with hj | rfl
    · exact .inl ⟨j, hl, hj, ht⟩
    · exact .inr ht

theorem Layer.layers (h : Layer r start k frontier) :
    Layers r start k k frontier := by
  intro y
  rw [h]
  constructor
  · intro ht
    exact ⟨k, le_rfl, le_rfl, ht⟩
  · rintro ⟨j, hkj, hjk, ht⟩
    exact Nat.le_antisymm hkj hjk ▸ ht

theorem Layer.stuck {k j : ℕ} (h : Layer r start k []) (hj : k ≤ j) (y : ℕ) : ¬ Times r j start y := by
  induction hj generalizing y with
  | refl => exact fun ht => nomatch (h y).mpr ht
  | step _ ih =>
    intro ht
    obtain ⟨x, hx, -⟩ := times_succ'.mp ht
    exact ih x hx

theorem extend_yields (hf : Computes I R f r n) (hr : Matcher.Forward n r) (hs : start ≤ n) {low : ℕ} (count : ℕ) {result frontier : List ℕ} (hk : low ≤ k) (h : Layer r start k frontier)
    (hl : Layers r start low k result) :
    Throwing.Yields I R (extend f count result frontier) (Layers r start low (k + count)) := by
  induction count generalizing k result frontier with
  | zero => exact .pure hl
  | succ count ih =>
    refine (unionOver_yields hf (h.bounded hr hs)).bind fun ends hends => ?_
    have hk' : low ≤ k + 1 := hk.trans (Nat.le_succ k)
    have hnext := hl.next hk' (h.next hends)
    split
    · rename_i hempty
      refine .pure fun y => ?_
      have hstuck : ∀ j, k + 1 ≤ j → ¬ Times r j start y := fun j hj => Layer.stuck (hempty ▸ h.next hends) hj y
      rw [hnext y]
      constructor
      · rintro ⟨j, hlj, hj, ht⟩
        exact ⟨j, hlj, by omega, ht⟩
      · rintro ⟨j, hlj, hj, ht⟩
        exact ⟨j, hlj, Nat.le_of_not_lt fun hlt => hstuck j (Nat.le_of_lt hlt) ht, ht⟩
    · have hn := ih hk' (h.next hends) hnext
      rwa [Nat.add_right_comm, Nat.add_assoc] at hn

/-- The search below a layer: everything seen can be reached, and steps from
what was seen lead to what was seen, but for the frontier. -/
structure Saturating (r : ℕ → ℕ → Prop) (start low : ℕ) (seen frontier : List ℕ) : Prop where
  sound : ∀ y ∈ seen, ∃ j, low ≤ j ∧ Times r j start y
  base : ∀ y, Times r low start y → y ∈ seen
  known : ∀ y ∈ frontier, y ∈ seen
  closed : ∀ x ∈ seen, x ∉ frontier → ∀ y, r x y → y ∈ seen

theorem Saturating.next {low : ℕ} {seen frontier ends : List ℕ} (h : Saturating r start low seen frontier)
    (he : ∀ y, y ∈ ends ↔ ∃ x ∈ frontier, r x y) :
    Saturating r start low (seen ∪ ends.filter (· ∉ seen)) (ends.filter (· ∉ seen)) where
  sound := by
    intro y hy
    rcases List.mem_union_iff.mp hy with hy | hy
    · exact h.sound y hy
    · obtain ⟨x, hx, hxy⟩ := (he y).mp (List.mem_of_mem_filter hy)
      obtain ⟨j, hj, ht⟩ := h.sound x (h.known x hx)
      exact ⟨j + 1, hj.trans (Nat.le_succ j), ht.snoc hxy⟩
  base := fun y hy => List.mem_union_left (h.base y hy) _
  known := fun y hy => List.mem_union_right _ hy
  closed := by
    intro x hx hnf y hxy
    have hseen : x ∈ seen := (List.mem_union_iff.mp hx).resolve_right hnf
    rw [List.mem_union_iff, List.mem_filter, decide_eq_true_eq]
    by_cases hf : x ∈ frontier
    · by_cases hy : y ∈ seen
      · exact .inl hy
      · exact .inr ⟨(he y).mpr ⟨x, hf, hxy⟩, hy⟩
    · exact .inl (h.closed x hseen hf y hxy)

theorem Saturating.done {low : ℕ} {seen : List ℕ} (h : Saturating r start low seen []) (y : ℕ) :
    y ∈ seen ↔ Repeated r low none start y := by
  constructor
  · intro hy
    obtain ⟨j, hj, ht⟩ := h.sound y hy
    exact ⟨j, hj, nofun, ht⟩
  · rintro ⟨j, hj, -, ht⟩
    induction hj generalizing y with
    | refl => exact h.base y ht
    | step _ ih =>
      obtain ⟨x, hx, hxy⟩ := times_succ'.mp ht
      exact h.closed x (ih x hx) List.not_mem_nil y hxy

def unseen (n : ℕ) (seen : List ℕ) : ℕ := ((Finset.range (n + 1)).filter (· ∉ seen)).card

theorem unseen_lt {seen following : List ℕ} {y : ℕ} (hy : y ∈ following) (hn : y ≤ n) (hs : y ∉ seen) :
    unseen n (seen ∪ following) < unseen n seen := by
  refine Finset.card_lt_card (Finset.ssubset_iff_of_subset ?_ |>.mpr ⟨y, ?_, ?_⟩)
  · intro x hx
    simp only [Finset.mem_filter, List.mem_union_iff, not_or] at hx ⊢
    exact ⟨hx.1, hx.2.1⟩
  · simp [hs, Nat.lt_succ_of_le hn]
  · simp [List.mem_union_iff, hy]

theorem unseen_le {y : ℕ} {ys : List ℕ} (hy : y ≤ n) : unseen n (y :: ys) ≤ n := by
  have hmem : y ∈ y :: ys := List.mem_cons_self
  have h : unseen n ([] ∪ y :: ys) < unseen n [] := unseen_lt hmem hy List.not_mem_nil
  have h₀ : unseen n [] = n + 1 := by simp [unseen]
  have h₁ : [] ∪ y :: ys = y :: ys := rfl
  rw [h₀, h₁] at h
  exact Nat.le_of_lt_succ h

theorem saturate_yields (hf : Computes I R f r n) (hr : Matcher.Forward n r) (hs : start ≤ n) {low : ℕ} (rounds : ℕ)
    {seen frontier : List ℕ} (h : Saturating r start low seen frontier)
    (hrounds : frontier = [] ∧ 0 < rounds ∨ unseen n seen + 1 < rounds) :
    Throwing.Yields I R (saturate f rounds seen frontier) fun ends =>
      ∀ y, y ∈ ends ↔ Repeated r low none start y := by
  induction rounds generalizing seen frontier with
  | zero => omega
  | succ rounds ih =>
    simp only [saturate]
    split
    · rename_i hempty
      subst hempty
      exact .pure h.done
    · rename_i hne
      have hbound : ∀ x ∈ frontier, x ≤ n := by
        intro x hx
        obtain ⟨j, -, ht⟩ := h.sound x (h.known x hx)
        exact (hr.times j start x hs ht).2
      refine (unionOver_yields hf hbound).bind fun ends hends => ?_
      refine ih (h.next hends) ?_
      have hlt : unseen n seen + 1 < rounds + 1 := (hrounds.resolve_left fun hr => hne hr.1)
      cases hfl : ends.filter (· ∉ seen) with
      | nil => exact .inl ⟨rfl, by omega⟩
      | cons y ys =>
        have hy : y ∈ ends.filter (· ∉ seen) := hfl ▸ List.mem_cons_self
        obtain ⟨x, hx, hxy⟩ := (hends y).mp (List.mem_of_mem_filter hy)
        have hyn : y ≤ n := (hr x y (hbound x hx) hxy).2
        have hys : y ∉ seen := by simpa using (List.mem_filter.mp hy).2
        have hmem : y ∈ y :: ys := List.mem_cons_self
        have := unseen_lt hmem hyn hys
        exact .inr (by omega)

end

-- The evaluator and its cache

def Node.child : Node → ℕ → Option Node
  | .alt items, i => items[i]?
  | .seq items, i => items[i]?
  | .repetition child _ _, 0 => some child
  | _, _ => none

def Node.at (root : Node) : List ℕ → Option Node
  | [] => some root
  | i :: path => (root.at path).bind fun node => node.child i

def Identifies (root : Node) (identity : List ℕ → ℕ) : Prop :=
  ∀ p q, (root.at p).isSome → (root.at q).isSome → identity p = identity q → root.at p = root.at q

section
variable {ε σ : Type} {value : List Char} {tick : Throwing ε σ Unit} {identity : List ℕ → ℕ} {rounds : ℕ}
  {root : Node}

def Cached (value : List Char) (identity : List ℕ → ℕ) (root : Node) (m : Memory σ) : Prop :=
  ∀ path node x ends, root.at path = some node → m.cache.lookup (identity path, x) = some ends →
    ∀ y, y ∈ ends ↔ node.Ends value x y

def RaisedBy (tick : Throwing ε σ Unit) (stop : Stop ε) : Prop :=
  ∃ e b b', stop = .raised e ∧ tick b = (.error e, b')

theorem ticked_yields : Throwing.Yields (Cached value identity root) (RaisedBy tick) (ticked tick) fun _ => True := by
  intro m hm
  simp only [ticked]
  cases ht : tick m.budget with
  | mk outcome budget =>
    cases outcome with
    | ok _ => exact ⟨trivial, hm⟩
    | error e => exact ⟨e, _, _, rfl, ht⟩

theorem Cached.insert (hid : Identifies root identity) {m : Memory σ} (hm : Cached value identity root m)
    {path : List ℕ} {node : Node} {x : ℕ} {ends : List ℕ} (hp : root.at path = some node)
    (he : ∀ y, y ∈ ends ↔ node.Ends value x y) :
    Cached value identity root { m with cache := ((identity path, x), ends) :: m.cache } := by
  intro path' node' x' ends' hp' hl
  simp only [List.lookup_cons] at hl
  split at hl
  · rename_i hkey
    obtain ⟨hidentity, rfl⟩ := Prod.mk.inj (eq_of_beq hkey)
    have hsame := hid path' path (by simp [hp']) (by simp [hp]) hidentity
    obtain rfl : node' = node := Option.some.inj (hp'.symm.trans (hsame.trans hp))
    exact Option.some.inj hl ▸ he
  · exact hm path' node' x' ends' hp' hl

theorem remembered_yields (hid : Identifies root identity) {path : List ℕ} {node : Node} {x : ℕ}
    {compute : Search ε σ (List ℕ)} (hp : root.at path = some node)
    (hc : Throwing.Yields (Cached value identity root) (RaisedBy tick) compute fun ends =>
      ∀ y, y ∈ ends ↔ node.Ends value x y) :
    Throwing.Yields (Cached value identity root) (RaisedBy tick) (remembered tick (identity path, x) compute)
      fun ends => ∀ y, y ∈ ends ↔ node.Ends value x y := by
  intro m hm
  simp only [remembered, Throwing.run_get_bind]
  cases hl : m.cache.lookup (identity path, x) with
  | some ends => exact ⟨hm path node x ends hp hl, hm⟩
  | none =>
    refine Throwing.Yields.bind ticked_yields (fun _ _ => ?_) m hm
    refine hc.bind fun ends he => ?_
    intro m' hm'
    exact ⟨he, hm'.insert hid hp he⟩

mutual

theorem evaluate_yields (hid : Identifies root identity) (hr : value.length + 1 < rounds) :
    ∀ (node : Node) (path : List ℕ), root.at path = some node →
      Computes (Cached value identity root) (RaisedBy tick) (evaluate value tick identity rounds node path)
        (node.Ends value) value.length
  | .empty, path, hp, x, _ => remembered_yields hid hp (.pure (by simp [Node.Ends, eq_comm]))
  | .startAnchor, path, hp, x, _ => remembered_yields hid hp (.pure fun y => by
      by_cases h : x = 0 <;> simp [Node.Ends, h, eq_comm])
  | .endAnchor, path, hp, x, _ => remembered_yields hid hp (.pure fun y => by
      by_cases h : x = value.length <;> simp [Node.Ends, h, eq_comm])
  | .char p, path, hp, x, _ => remembered_yields hid hp (.pure fun y => by
      cases h : value[x]? with
      | none => simp [Node.Ends, h]
      | some c => by_cases hc : accepts p c <;> simp [Node.Ends, h, hc])
  | .alt items, path, hp, x, hx => remembered_yields hid hp
      (evaluateAlt_yields hid hr items path 0 items hp rfl x hx)
  | .seq items, path, hp, x, hx => by
    refine remembered_yields hid hp ((evaluateSeq_yields hid hr items path 0 items hp rfl [x] ?_).mono ?_)
    · simpa using hx
    · simp [Node.Ends]
  | .repetition child minimum maximum, path, hp, x, hx => by
    have hf := evaluate_yields hid hr child (0 :: path) (by simp [Node.at, hp, Node.child])
    have hforward : Matcher.Forward value.length (child.Ends value) := Node.Ends.forward child
    have hstart : Layer (child.Ends value) x 0 [x] := by simp [Layer, eq_comm]
    refine remembered_yields hid hp ?_
    refine (iterate_yields hf hforward hx minimum hstart).bind fun frontier hl => ?_
    rw [Nat.zero_add] at hl
    cases maximum with
    | none =>
      refine saturate_yields hf hforward hx rounds ⟨?_, ?_, ?_, ?_⟩ ?_
      · exact fun y hy => ⟨minimum, le_rfl, (hl y).mp hy⟩
      · exact fun y ht => (hl y).mpr ht
      · exact fun y hy => hy
      · exact fun y hy hny => absurd hy hny
      · cases frontier with
        | nil => exact .inl ⟨rfl, by omega⟩
        | cons y ys =>
          have hle : unseen value.length (y :: ys) ≤ value.length :=
            unseen_le (hl.bounded hforward hx y List.mem_cons_self)
          exact .inr (by omega)
    | some maximum =>
      refine (extend_yields hf hforward hx (maximum - minimum) le_rfl hl hl.layers).mono fun ends he y => ?_
      have hmax : minimum + (maximum - minimum) = max minimum maximum := by omega
      rw [he, Node.Ends, Repeated, hmax]
      simp

theorem evaluateAlt_yields (hid : Identifies root identity) (hr : value.length + 1 < rounds) :
    ∀ (items : List Node) (path : List ℕ) (index : ℕ) (whole : List Node), root.at path = some (.alt whole) →
      whole.drop index = items → ∀ x ≤ value.length,
        Throwing.Yields (Cached value identity root) (RaisedBy tick)
          (evaluateAlt value tick identity rounds items path index x) fun ends => ∀ y, y ∈ ends ↔ AltEnds value items x y
  | [], path, index, whole, hp, hd, x, hx => .pure (by simp [AltEnds])
  | child :: items, path, index, whole, hp, hd, x, hx => by
    have hchild : whole[index]? = some child := by
      rw [← List.head?_drop, hd]
      rfl
    have hrest : whole.drop (index + 1) = items := by rw [← List.tail_drop, hd, List.tail_cons]
    have hf := evaluate_yields hid hr child (index :: path) (by simp [Node.at, hp, Node.child, hchild])
    refine (hf x hx).bind fun ends he => ?_
    refine (evaluateAlt_yields hid hr items path (index + 1) whole hp hrest x hx).bind fun others ho => ?_
    exact .pure fun y => by simp [AltEnds, List.mem_union_iff, he, ho]

theorem evaluateSeq_yields (hid : Identifies root identity) (hr : value.length + 1 < rounds) :
    ∀ (items : List Node) (path : List ℕ) (index : ℕ) (whole : List Node), root.at path = some (.seq whole) →
      whole.drop index = items → ∀ positions : List ℕ, (∀ x ∈ positions, x ≤ value.length) →
        Throwing.Yields (Cached value identity root) (RaisedBy tick)
          (evaluateSeq value tick identity rounds items path index positions) fun ends =>
            ∀ y, y ∈ ends ↔ ∃ x ∈ positions, SeqEnds value items x y
  | [], path, index, whole, hp, hd, positions, hx => .pure (by simp [SeqEnds])
  | child :: items, path, index, whole, hp, hd, positions, hx => by
    have hchild : whole[index]? = some child := by
      rw [← List.head?_drop, hd]
      rfl
    have hrest : whole.drop (index + 1) = items := by rw [← List.tail_drop, hd, List.tail_cons]
    have hf := evaluate_yields hid hr child (index :: path) (by simp [Node.at, hp, Node.child, hchild])
    refine (unionOver_yields hf hx).bind fun ends he => ?_
    have hends : ∀ x ∈ ends, x ≤ value.length := by
      intro x hxe
      obtain ⟨x₀, hx₀, h⟩ := (he x).mp hxe
      exact (Node.Ends.forward child x₀ x (hx x₀ hx₀) h).2
    refine (evaluateSeq_yields hid hr items path (index + 1) whole hp hrest ends hends).mono fun _ hl y => ?_
    rw [hl]
    simp only [he, SeqEnds]
    constructor
    · rintro ⟨z, ⟨x, hx, hz⟩, h⟩
      exact ⟨x, hx, z, hz, h⟩
    · rintro ⟨x, hx, z, hz, h⟩
      exact ⟨z, ⟨x, hx, hz⟩, h⟩

end

theorem searchFrom_yields (tick : Throwing ε σ Unit) (hid : Identifies root identity) (hr : value.length + 1 < rounds) {starts : List ℕ}
    (hs : ∀ x ∈ starts, x ≤ value.length) :
    Throwing.Yields (Cached value identity root) (RaisedBy tick)
      (searchFrom value tick identity rounds root starts)
      fun found => found = true ↔ ∃ x ∈ starts, ∃ y, root.Ends value x y := by
  induction starts with
  | nil => exact .pure (by simp)
  | cons x starts ih =>
    refine (evaluate_yields hid hr root [] rfl x (hs x (by simp))).bind fun ends he => ?_
    cases ends with
    | nil =>
      refine (ih fun x hx => hs x (by simp [hx])).mono fun found hf => ?_
      have hnone : ∀ y, ¬ root.Ends value x y := fun y hy => nomatch (he y).mpr hy
      simp [hf, hnone]
    | cons y ends => exact .pure (by simpa using .inl ⟨y, (he y).mp (by simp)⟩)

/-- A search tells whether the pattern matches somewhere; only `tick` keeps it
from an answer. -/
theorem search_spec (tick : Throwing ε σ Unit) {p : Pattern} (hid : Identifies p.tree identity)
    (hr : value.length + 1 < rounds) (budget : σ) :
    match p.search value tick identity rounds budget with
    | (.ok found, _) => found = true ↔ ∃ x ≤ value.length, ∃ y, p.tree.Ends value x y
    | (.error stop, _) => RaisedBy tick stop := by
  have hs : ∀ x ∈ List.range (value.length + 1), x ≤ value.length := fun x hx =>
    Nat.le_of_lt_succ (List.mem_range.mp hx)
  have hempty : Cached value identity p.tree (⟨[], budget⟩ : Memory σ) := by simp [Cached]
  have h := searchFrom_yields tick hid hr hs ⟨[], budget⟩ hempty
  simp only [Pattern.search]
  revert h
  cases searchFrom value tick identity rounds p.tree (List.range (value.length + 1)) ⟨[], budget⟩ with
  | mk outcome m =>
    cases outcome with
    | ok found =>
      rintro ⟨h, -⟩
      simpa [Nat.lt_succ_iff] using h
    | error stop => exact id

end

end WotAv.Contract
