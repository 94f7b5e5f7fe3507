import WotAv.Capture.Pictures

/-!
# Copies of frames stay within their arrays

Each loop writes every place of its array from places within its source.
-/

namespace WotAv.Capture

open WotAv.Lib WotAv.Lib.Access Native

theorem index_lt {x y w h : Nat} (hx : x < w) (hy : y < h) : y * w + x < h * w := by
  have hrows : (y + 1) * w ≤ h * w := Nat.mul_le_mul_right w hy
  rw [Nat.add_mul, Nat.one_mul] at hrows
  omega

theorem index_div {x y w : Nat} (hx : x < w) : (y * w + x) / w = y ∧ (y * w + x) % w = x := by
  have hw : 0 < w := Nat.lt_of_le_of_lt (Nat.zero_le x) hx
  rw [Nat.mul_comm, Nat.mul_add_div hw, Nat.mul_add_mod, Nat.div_eq_of_lt hx, Nat.mod_eq_of_lt hx]
  exact ⟨rfl, rfl⟩

namespace Bounds

open Linux

variable {limits : Native.Limits}

theorem mulSize_le {a b bound n : Nat} (h : mulSize a b bound = .ok n) : n = a * b ∧ n ≤ bound := by
  unfold mulSize at h
  split at h
  · cases h
  · rename_i hfits
    obtain rfl := Except.ok.inj h
    refine ⟨rfl, ?_⟩
    by_cases ha : a = 0
    · rw [ha, Nat.zero_mul]
      exact Nat.zero_le _
    · have hb : b ≤ bound / a := by
        rw [not_and, Nat.not_lt] at hfits
        exact hfits ha
      rw [Nat.mul_comm]
      exact (Nat.le_div_iff_mul_le (Nat.pos_of_ne_zero ha)).mp hb

def bytesPerPixel : RawFormat → Nat
  | .rgb8 => 3
  | .mono8 => 1
  | .yuyv601 => 2

structure Admitted (l : Layout) (limits : Native.Limits) (row : Nat) : Prop where
  row : row = l.width * bytesPerPixel l.format
  limit : limits.nativeBytes ≤ 33554432
  frame : limits.frameBytes ≤ 16777216
  width : 0 < l.width ∧ l.width ≤ limits.width
  height : 0 < l.height ∧ l.height ≤ limits.height
  pairs : l.format = .yuyv601 → l.width % 2 = 0

theorem rowBytes_ok {l : Layout} {row : Nat} (h : rowBytes l limits = .ok row) : Admitted l limits row := by
  unfold rowBytes at h
  obtain ⟨_, hlimits, h⟩ := except_bind_ok h
  have hlimits : ¬(limits.width = 0 ∨ 4096 < limits.width ∨ limits.height = 0 ∨ 4096 < limits.height ∨
      limits.nativeBytes = 0 ∨ 33554432 < limits.nativeBytes ∨ limits.frameBytes = 0 ∨ 16777216 < limits.frameBytes ∨
      limits.readMs = 0 ∨ 2000 < limits.readMs) := by
    intro hbad
    rw [Limits.validate, if_pos hbad] at hlimits
    cases hlimits
  split at h
  · cases h
  · rename_i hsize
    split at h
    · cases h
    · rename_i hpairs
      obtain ⟨hrow, -⟩ := mulSize_le h
      refine ⟨?_, by omega, by omega, by omega, by omega, fun hformat => ?_⟩
      · rw [hrow]
        cases l.format <;> rfl
      · by_contra hodd
        exact hpairs ⟨hformat, hodd⟩

theorem length_replicate_le {size limit : Nat} (h : size ≤ limit) (hlimit : limit ≤ 33554432) :
    (List.replicate size (0 : UInt8)).length ≤ 2 ^ 64 := by
  rw [List.length_replicate]
  omega

structure Copied (data : Bytes) (l : Layout) (limits : Native.Limits) (row : Nat) (out : Bytes) : Prop where
  size : out.length = row * l.height
  limit : out.length ≤ limits.nativeBytes
  rows : ∀ y < l.height, ∀ i < row, y * l.stride + i < data.length ∧
    out[y * row + i]? = data[y * l.stride + i]?

theorem within_copyRows (data : Mapped) (l : Layout) :
    (copyRows data l limits).Within fun out => ∃ bytes row, data = some bytes ∧ rowBytes l limits = .ok row ∧
      Copied bytes l limits row out := by
  unfold copyRows
  refine within_thrown.bind fun row hrow => within_thrown.bind fun extent hextent => ?_
  have hadmitted := rowBytes_ok hrow
  obtain ⟨row', hrow', hextent⟩ := except_bind_ok hextent
  obtain rfl := Except.ok.inj (hrow.symm.trans hrow')
  cases data with
  | none => exact .fault
  | some bytes =>
    simp only
    split
    · exact .fault
    · rename_i hfits
      split at hextent
      · cases hextent
      · obtain ⟨rows, hrows, hextent⟩ := except_bind_ok hextent
        obtain ⟨rfl, -⟩ := mulSize_le hrows
        obtain ⟨rfl, -⟩ := addSize_ok hextent
        refine within_thrown.bind fun size hsize => ?_
        obtain ⟨rfl, hlimit⟩ := mulSize_le hsize
        have hread : ∀ y < l.height, ∀ i < row, y * l.stride + i < bytes.length := by
          intro y hy i hi
          have hstep : y * l.stride ≤ (l.height - 1) * l.stride := Nat.mul_le_mul_right _ (by omega)
          omega
        have hlong : bytes.length ≤ 2 ^ 64 := by
          have := hadmitted.limit
          omega
        refine (assign_within (V := fun p => fetch bytes (p / row * l.stride + p % row)) _
          (length_replicate_le hlimit hadmitted.limit) ?_).mono fun out hout => ⟨bytes, row, rfl, hrow, ?_⟩
        · intro a ha
          obtain ⟨y, hy, ha⟩ := List.mem_flatMap.mp ha
          obtain ⟨i, hi, rfl⟩ := List.mem_map.mp ha
          rw [List.mem_range] at hy hi
          obtain ⟨hdiv, hmod⟩ := index_div (y := y) hi
          refine ⟨?_, by rw [hdiv, hmod], ?_⟩
          · rw [List.length_replicate, Nat.mul_comm row]
            exact index_lt hi hy
          · simp only [hdiv, hmod]
            rw [fetch_getD 0 (hread y hy i hi) hlong]
            trivial
        · obtain ⟨hlength, hvalues⟩ := hout
          rw [List.length_replicate] at hlength
          refine ⟨hlength, hlength ▸ hlimit, fun y hy i hi => ⟨hread y hy i hi, ?_⟩⟩
          obtain ⟨b, hb, hout⟩ := hvalues (y * row + i) (.inl ⟨_, List.mem_flatMap.mpr
            ⟨y, List.mem_range.mpr hy, List.mem_map.mpr ⟨i, List.mem_range.mpr hi, rfl⟩⟩, rfl⟩)
          obtain ⟨hdiv, hmod⟩ := index_div (y := y) hi
          simp only [hdiv, hmod] at hb
          rw [fetch_getD 0 (hread y hy i hi) hlong] at hb
          rw [hout, ← Except.ok.inj hb]
          simp [hread y hy i hi]

-- `to_rgb`

theorem clamp_of_nonpos {n : Int} (h : n ≤ 0) : clamp n = 0 := by
  have hmax : max 0 (min 255 n) = 0 := by omega
  rw [clamp, hmax]
  rfl

theorem clamp_tdiv (n : Int) : clamp (n.tdiv 256) = clamp (n / 256) := by
  by_cases h : 0 ≤ n
  · rw [Int.tdiv_eq_ediv_of_nonneg h]
  · have hneg : 0 ≤ (-n).tdiv 256 := Int.tdiv_nonneg (by omega) (by decide)
    rw [Int.neg_tdiv] at hneg
    rw [clamp_of_nonpos (by omega), clamp_of_nonpos (by omega)]

def bt601 (y u v : Int) (k : Nat) : UInt8 :=
  if k = 0 then clamp ((298 * (y - 16) + 409 * (v - 128) + 128) / 256)
  else if k = 1 then clamp ((298 * (y - 16) - 100 * (u - 128) - 208 * (v - 128) + 128) / 256)
  else clamp ((298 * (y - 16) + 516 * (u - 128) + 128) / 256)

theorem channel_eq (luma u v : UInt8) (k : Nat) :
    channel luma u v k = bt601 (max 16 luma.toNat) u.toNat v.toNat k := by
  have hluma : max 0 ((luma.toNat : Int) - 16) = max 16 (luma.toNat : Int) - 16 := by omega
  simp only [channel, bt601, clamp_tdiv, hluma]

def shown (packed : Bytes) (format : RawFormat) (q k : Nat) : UInt8 :=
  match format with
  | .rgb8 => packed.getD (3 * q + k) 0
  | .mono8 => packed.getD q 0
  | .yuyv601 => bt601 (max 16 (packed.getD (2 * q) 0).toNat) (packed.getD (4 * (q / 2) + 1) 0).toNat
      (packed.getD (4 * (q / 2) + 3) 0).toNat k

theorem value_pairPixel {packed : Bytes} {q : Nat} (k : Nat) (hq : 4 * (q / 2) + 3 < packed.length)
    (hsize : packed.length ≤ 2 ^ 64) :
    (pairPixel packed (2 * (q / 2)) (q % 2) k).value = .ok (shown packed .yuyv601 q k) := by
  have hu : 2 * (2 * (q / 2)) + 1 = 4 * (q / 2) + 1 := by omega
  have hv : 2 * (2 * (q / 2)) + 3 = 4 * (q / 2) + 3 := by omega
  have hy : 2 * (2 * (q / 2)) + 2 * (q % 2) = 2 * q := by omega
  simp only [pairPixel, hu, hv, hy, bind, Except.bind]
  rw [fetch_getD 0 (by omega) hsize, fetch_getD 0 hq hsize, fetch_getD 0 (by omega) hsize]
  simp only [shown, ← channel_eq]
  rfl

structure Converted (packed : Bytes) (w h : Nat) (format : RawFormat) (limits : Native.Limits) (out : Bytes) : Prop where
  size : out.length = 3 * w * h
  limit : out.length ≤ limits.nativeBytes
  pixels : ∀ q < w * h, ∀ k < 3, out[3 * q + k]? = some (shown packed format q k)

theorem converted_of_assign {packed : Bytes} {w h n size : Nat} {format : RawFormat} (hn : n = w * h)
    (hsize : size = n * 3) (hlimit : size ≤ limits.nativeBytes) (hnative : limits.nativeBytes ≤ 33554432) {l : List (Assignment Fault UInt8)}
    (hall : ∀ q < n, ∀ k < 3, ∃ a ∈ l, a.index = 3 * q + k)
    (hl : ∀ a ∈ l, ∃ q k, q < n ∧ k < 3 ∧ a.index = 3 * q + k ∧ a.value = .ok (shown packed format q k)) :
    (assign l (List.replicate size 0)).Within (Converted packed w h format limits) := by
  refine (assign_total (F := fun p => shown packed format (p / 3) (p % 3)) l
    (length_replicate_le hlimit hnative) ?_).mono fun out ⟨hlength, hvalues⟩ => ?_
  · intro a ha
    obtain ⟨q, k, hq, hk, hindex, hvalue⟩ := hl a ha
    have hdiv : (3 * q + k) / 3 = q := by omega
    have hmod : (3 * q + k) % 3 = k := by omega
    refine ⟨?_, by rw [hindex, hdiv, hmod, hvalue]⟩
    rw [List.length_replicate, hindex, hsize]
    omega
  · rw [List.length_replicate] at hlength
    refine ⟨?_, hlength ▸ hlimit, fun q hq k hk => ?_⟩
    · rw [hlength, hsize, hn, Nat.mul_comm, Nat.mul_assoc]
    · obtain ⟨a, ha, hindex⟩ := hall q (hn ▸ hq) k hk
      have hdiv : (3 * q + k) / 3 = q := by omega
      have hmod : (3 * q + k) % 3 = k := by omega
      have hout := hvalues a ha
      rw [hindex, hdiv, hmod] at hout
      exact hout

theorem within_toRgb (packed : Bytes) (w h : Nat) (format : RawFormat) :
    (toRgb packed w h format limits).Within (Converted packed w h format limits) := by
  unfold toRgb
  refine within_thrown.bind fun row hrow => within_thrown.bind fun size hsize => ?_
  have hadmitted := rowBytes_ok hrow
  obtain ⟨rfl, hlimit⟩ := mulSize_le hsize
  have hnative := hadmitted.limit
  have hrow := hadmitted.row
  simp only at hrow
  split
  · exact .fault
  · rename_i hpacked
    rw [not_not, hrow] at hpacked
    have hlong : packed.length ≤ 2 ^ 64 := by
      rw [hrow] at hlimit
      omega
    split
    · rename_i hformat
      subst hformat
      have hlength : packed.length = 3 * w * h := by
        rw [hpacked, bytesPerPixel, Nat.mul_comm w]
      refine .ok ⟨hlength, by rw [hpacked, ← hrow]; exact hlimit, fun q hq k hk => ?_⟩
      have hin : 3 * q + k < packed.length := by
        rw [hlength, Nat.mul_assoc]
        omega
      simp [shown, hin]
    · rename_i hnotrgb
      refine within_thrown.bind fun n hn => within_thrown.bind fun size hsize => ?_
      obtain ⟨rfl, -⟩ := mulSize_le hn
      obtain ⟨rfl, hlimit'⟩ := mulSize_le hsize
      split
      · rename_i hmono
        subst hmono
        rw [bytesPerPixel, Nat.mul_one] at hpacked
        refine converted_of_assign rfl rfl hlimit' hnative (fun q hq k hk => ?_) fun a ha => ?_
        · exact ⟨_, List.mem_flatMap.mpr ⟨q, List.mem_range.mpr hq, List.mem_map.mpr ⟨k, by
            simp only [List.mem_cons, List.not_mem_nil, or_false]
            omega, rfl⟩⟩, rfl⟩
        · obtain ⟨q, hq, ha⟩ := List.mem_flatMap.mp ha
          obtain ⟨k, hk, rfl⟩ := List.mem_map.mp ha
          rw [List.mem_range] at hq
          simp only [List.mem_cons, List.not_mem_nil, or_false] at hk
          exact ⟨q, k, hq, by omega, rfl, fetch_getD 0 (hpacked ▸ hq) hlong⟩
      · rename_i hnotmono
        have hformat : format = .yuyv601 := by
          cases format with
          | mono8 => exact absurd rfl hnotmono
          | rgb8 => exact absurd rfl hnotrgb
          | yuyv601 => rfl
        subst hformat
        have hpairs : w * h % 2 = 0 := by
          rw [Nat.mul_mod, hadmitted.pairs rfl, Nat.zero_mul, Nat.zero_mod]
        have hlength : packed.length = 2 * (w * h) := by
          rw [hpacked, bytesPerPixel, Nat.mul_comm w, Nat.mul_assoc]
        refine converted_of_assign rfl rfl hlimit' hnative (fun q hq k hk => ?_) fun a ha => ?_
        · refine ⟨pairPixel packed (2 * (q / 2)) (q % 2) k, ?_, ?_⟩
          · exact List.mem_flatMap.mpr ⟨q / 2, List.mem_range.mpr (by omega), List.mem_flatMap.mpr ⟨q % 2,
              List.mem_range.mpr (by omega), List.mem_map.mpr ⟨k, List.mem_range.mpr hk, rfl⟩⟩⟩
          · show 3 * (2 * (q / 2) + q % 2) + k = 3 * q + k
            omega
        · obtain ⟨j, hj, ha⟩ := List.mem_flatMap.mp ha
          obtain ⟨p, hp, ha⟩ := List.mem_flatMap.mp ha
          obtain ⟨k, hk, rfl⟩ := List.mem_map.mp ha
          rw [List.mem_range] at hj hp hk
          have hdiv : (2 * j + p) / 2 = j := by omega
          have hmod : (2 * j + p) % 2 = p := by omega
          refine ⟨2 * j + p, k, by omega, hk, rfl, ?_⟩
          have hvalue := @value_pairPixel packed (2 * j + p) k (by omega) hlong
          rw [hdiv, hmod] at hvalue
          exact hvalue

-- `to_i420`

def pixel (rgb : Bytes) (w x y : Nat) : Pixel :=
  let i := (y * w + x) * 3
  ⟨(rgb.getD i 0).toNat, (rgb.getD (i + 1) 0).toNat, (rgb.getD (i + 2) 0).toNat⟩

theorem pixelAt_ok {rgb : Bytes} {w h x y : Nat} (hsize : rgb.length = w * h * 3) (hlong : rgb.length ≤ 2 ^ 64)
    (hx : x < w) (hy : y < h) : pixelAt rgb ((y * w + x) * 3) = .ok (pixel rgb w x y) := by
  have hin := index_lt hx hy
  rw [Nat.mul_comm h] at hin
  simp only [pixelAt, bind, Except.bind]
  rw [fetch_getD 0 (by omega) hlong, fetch_getD 0 (by omega) hlong, fetch_getD 0 (by omega) hlong]
  rfl

theorem mapM_access {α β : Type} {f : α → Access Fault β} {g : α → β} :
    ∀ l : List α, (∀ a ∈ l, f a = .ok (g a)) → l.mapM f = .ok (l.map g)
  | [], _ => rfl
  | a :: l, h => by
    rw [List.mapM_cons, h a List.mem_cons_self, mapM_access l fun b hb => h b (List.mem_cons_of_mem a hb)]
    rfl

def block (rgb : Bytes) (w h cx cy : Nat) : List Pixel :=
  (List.range 2).flatMap fun dy => (List.range 2).filterMap fun dx =>
    if 2 * cy + dy < h ∧ 2 * cx + dx < w then some (pixel rgb w (2 * cx + dx) (2 * cy + dy)) else none

theorem blockAt_ok {rgb : Bytes} {w h : Nat} (hsize : rgb.length = w * h * 3) (hlong : rgb.length ≤ 2 ^ 64)
    (cx cy : Nat) :
    blockAt rgb w h (2 * cx) (2 * cy) = .ok (blockMean true (pixel rgb w) w h cx cy) := by
  have hindices : ∀ i ∈ blockIndices w h (2 * cx) (2 * cy), pixelAt rgb i =
      .ok ⟨(rgb.getD i 0).toNat, (rgb.getD (i + 1) 0).toNat, (rgb.getD (i + 2) 0).toNat⟩ := by
    intro i hi
    obtain ⟨dy, -, hi⟩ := List.mem_flatMap.mp hi
    obtain ⟨dx, -, hi⟩ := List.mem_filterMap.mp hi
    split at hi
    · rename_i hin
      obtain rfl := Option.some.inj hi
      rw [Nat.add_assoc (_ * w)]
      exact pixelAt_ok hsize hlong hin.2 hin.1
    · cases hi
  rw [blockAt, mapM_access _ hindices]
  show Except.ok (mean _) = Except.ok (mean (block rgb w h cx cy))
  rw [block, blockIndices, List.map_flatMap]
  congr 2
  refine congrArg (List.flatMap · _) (funext fun dy => ?_)
  rw [List.map_filterMap]
  refine congrArg (List.filterMap · _) (funext fun dx => ?_)
  split
  · rw [Option.map_some, pixel, Nat.add_assoc (_ * w)]
  · rfl

/-- The planes of a picture whose width and height may be odd. -/
structure Planes (rgb : Bytes) (w h : Nat) (limits : Native.Limits) (out : Bytes) : Prop where
  size : out.length = i420Size w h
  limit : out.length ≤ limits.frameBytes
  luma : ∀ y < h, ∀ x < w, out[y * w + x]? = some (pixel rgb w x y).luma
  u : ∀ cy < (h + 1) / 2, ∀ cx < (w + 1) / 2, out[w * h + (cy * ((w + 1) / 2) + cx)]? =
    some (blockMean true (pixel rgb w) w h cx cy).u
  v : ∀ cy < (h + 1) / 2, ∀ cx < (w + 1) / 2,
    out[w * h + (w + 1) / 2 * ((h + 1) / 2) + (cy * ((w + 1) / 2) + cx)]? =
      some (blockMean true (pixel rgb w) w h cx cy).v

def plane (rgb : Bytes) (w h p : Nat) : UInt8 :=
  let cw := (w + 1) / 2
  if p < w * h then (pixel rgb w (p % w) (p / w)).luma
  else if p < w * h + cw * ((h + 1) / 2) then (blockMean true (pixel rgb w) w h ((p - w * h) % cw) ((p - w * h) / cw)).u
  else
    let c := p - w * h - cw * ((h + 1) / 2)
    (blockMean true (pixel rgb w) w h (c % cw) (c / cw)).v

theorem plane_luma {rgb : Bytes} {w h x y : Nat} (hx : x < w) (hy : y < h) :
    plane rgb w h (y * w + x) = (pixel rgb w x y).luma := by
  have hin := index_lt hx hy
  rw [Nat.mul_comm h] at hin
  obtain ⟨hdiv, hmod⟩ := index_div (y := y) hx
  rw [plane, if_pos hin, hdiv, hmod]

theorem plane_u {rgb : Bytes} {w h cx cy : Nat} (hx : cx < (w + 1) / 2) (hy : cy < (h + 1) / 2) :
    plane rgb w h (w * h + (cy * ((w + 1) / 2) + cx)) = (blockMean true (pixel rgb w) w h cx cy).u := by
  have hin := index_lt hx hy
  rw [Nat.mul_comm ((h + 1) / 2)] at hin
  obtain ⟨hdiv, hmod⟩ := index_div (y := cy) hx
  simp only [plane]
  rw [if_neg (by omega), if_pos (by omega), Nat.add_sub_cancel_left, hdiv, hmod]

theorem plane_v {rgb : Bytes} {w h cx cy : Nat} (hx : cx < (w + 1) / 2) :
    plane rgb w h (w * h + (w + 1) / 2 * ((h + 1) / 2) + (cy * ((w + 1) / 2) + cx)) =
      (blockMean true (pixel rgb w) w h cx cy).v := by
  obtain ⟨hdiv, hmod⟩ := index_div (y := cy) hx
  simp only [plane]
  rw [if_neg (by omega), if_neg (by omega), Nat.add_assoc, Nat.add_sub_cancel_left, Nat.add_sub_cancel_left, hdiv, hmod]

theorem within_toI420 (rgb : Bytes) (w h : Nat) : (toI420 rgb w h limits).Within (Planes rgb w h limits) := by
  unfold toI420
  refine within_thrown.bind fun row hrow => within_thrown.bind fun size hsize => ?_
  have hadmitted := rowBytes_ok hrow
  obtain ⟨rfl, hlimit⟩ := mulSize_le hsize
  have hnative := hadmitted.limit
  have hrow : row = w * 3 := hadmitted.row
  split
  · exact .fault
  · rename_i hrgb
    rw [not_not, hrow, Nat.mul_right_comm] at hrgb
    have hlong : rgb.length ≤ 2 ^ 64 := by
      rw [hrow, Nat.mul_right_comm] at hlimit
      omega
    refine within_thrown.bind fun ysize hysize => within_thrown.bind fun csize hcsize =>
      within_thrown.bind fun both hboth => within_thrown.bind fun size hsize => ?_
    obtain ⟨rfl, -⟩ := mulSize_le hysize
    obtain ⟨rfl, -⟩ := mulSize_le hcsize
    obtain ⟨rfl, -⟩ := mulSize_le hboth
    obtain ⟨rfl, hframe⟩ := addSize_ok hsize
    have hframes := hadmitted.frame
    refine (assign_total (F := plane rgb w h) _
      (length_replicate_le hframe (by omega)) ?_).mono fun out ⟨hlength, hwritten⟩ => ?_
    · intro a ha
      rw [List.length_replicate]
      rcases List.mem_append.mp ha with ha | ha
      · obtain ⟨y, hy, ha⟩ := List.mem_flatMap.mp ha
        obtain ⟨x, hx, rfl⟩ := List.mem_map.mp ha
        rw [List.mem_range] at hy hx
        have hin := index_lt hx hy
        rw [Nat.mul_comm h] at hin
        refine ⟨by show y * w + x < _; omega, ?_⟩
        simp only [pixelAt_ok hrgb hlong hx hy, plane_luma hx hy]
        rfl
      · obtain ⟨cy, hy, ha⟩ := List.mem_flatMap.mp ha
        obtain ⟨cx, hx, ha⟩ := List.mem_flatMap.mp ha
        rw [List.mem_range] at hy hx
        have hin := index_lt hx hy
        rw [Nat.mul_comm ((h + 1) / 2)] at hin
        rw [List.mem_cons, List.mem_singleton] at ha
        rcases ha with rfl | rfl
        · refine ⟨by show w * h + _ < _; omega, ?_⟩
          simp only [blockAt_ok hrgb hlong, plane_u hx hy]
          rfl
        · refine ⟨by show w * h + _ + _ < _; omega, ?_⟩
          simp only [blockAt_ok hrgb hlong, plane_v hx]
          rfl
    · rw [List.length_replicate] at hlength
      refine ⟨by rw [hlength, i420Size, Nat.mul_comm (_ * _) 2, Nat.mul_assoc], hlength ▸ hframe,
        fun y hy x hx => ?_, fun cy hy cx hx => ?_, fun cy hy cx hx => ?_⟩
      · rw [← plane_luma hx hy]
        exact hwritten _ (List.mem_append_left _ (List.mem_flatMap.mpr ⟨y, List.mem_range.mpr hy,
          List.mem_map.mpr ⟨x, List.mem_range.mpr hx, rfl⟩⟩))
      · rw [← plane_u hx hy]
        exact hwritten _ (List.mem_append_right _ (List.mem_flatMap.mpr ⟨cy, List.mem_range.mpr hy,
          List.mem_flatMap.mpr ⟨cx, List.mem_range.mpr hx, List.mem_cons_self⟩⟩))
      · rw [← plane_v hx]
        exact hwritten _ (List.mem_append_right _ (List.mem_flatMap.mpr ⟨cy, List.mem_range.mpr hy,
          List.mem_flatMap.mpr ⟨cx, List.mem_range.mpr hx, List.mem_cons_of_mem _ List.mem_cons_self⟩⟩))

end Bounds

-- `copy_bgr`

namespace Windows

variable {limits : Native.Limits}

structure Shaped (mode : Mode) (limits : Native.Limits) : Prop where
  size : mode.width * mode.height * 3 ≤ limits.nativeBytes
  subtype : mode.subtype = MFVideoFormat_RGB32 ∨ mode.subtype = MFVideoFormat_YUY2 ∨ mode.subtype = MFVideoFormat_NV12
  pairs : mode.subtype ≠ MFVideoFormat_RGB32 → mode.width % 2 = 0

theorem geometry_shaped {mode : Mode} {u : Unit} (h : geometry mode limits = .ok u) : Shaped mode limits := by
  obtain ⟨_, -, h⟩ := except_bind_ok h
  obtain ⟨size, -, h⟩ := except_bind_ok h
  obtain ⟨_, hbytes, h⟩ := except_bind_ok h
  obtain ⟨_, -, h⟩ := except_bind_ok h
  obtain ⟨_, -, h⟩ := except_bind_ok h
  obtain ⟨-, hsize⟩ := require_ok hbytes
  split at h
  · rename_i hformat
    exact ⟨hsize, .inr (.inr hformat), fun _ => (require_ok h).1⟩
  · split at h
    · rename_i hformat
      exact ⟨hsize, .inr (.inl hformat), fun _ => require_ok h⟩
    · exact ⟨hsize, .inl (require_ok h), fun hn => absurd (require_ok h) hn⟩

theorem line_ok {bytes : Bytes} {top stride plane : Int} {y size offset : Nat}
    (h : line bytes top stride y size plane = .ok offset) :
    (offset : Int) = top + stride * y + plane ∧ offset + size ≤ bytes.length := by
  obtain ⟨_, -, h⟩ := except_bind_ok h
  obtain ⟨_, hoffset, h⟩ := except_bind_ok h
  obtain ⟨hoffset, hfits⟩ := require_ok hoffset
  obtain rfl := Except.ok.inj h
  exact ⟨Int.toNat_of_nonneg hoffset, hfits⟩

def shown (subtype : Guid) (bytes : Bytes) (source uv x k : Nat) : UInt8 :=
  let byte := fun i => bytes.getD i 0
  if subtype = MFVideoFormat_RGB32 then byte (source + x * 4 + k)
  else if subtype = MFVideoFormat_YUY2 then
    Bounds.bt601 (byte (source + (x / 2 * 4 + x % 2 * 2))).toNat (byte (source + (x / 2 * 4 + 1))).toNat
      (byte (source + (x / 2 * 4 + 3))).toNat (2 - k)
  else
    Bounds.bt601 (byte (source + x)).toNat (byte (uv + x / 2 * 2)).toNat (byte (uv + (x / 2 * 2 + 1))).toNat (2 - k)

theorem yuv_eq (y u v : UInt8) {k : Nat} (hk : k < 3) : yuv y u v k = Bounds.bt601 y.toNat u.toNat v.toNat (2 - k) := by
  match k, hk with
  | 0, _ => rfl
  | 1, _ => rfl
  | 2, _ => rfl

theorem channelOf_ok {mode : Mode} (hmode : Shaped mode limits) {bytes : Bytes} (hlong : bytes.length ≤ 2 ^ 64)
    {source uv x k : Nat} (hsource : source + lineBytes mode ≤ bytes.length)
    (huv : mode.subtype = MFVideoFormat_NV12 → uv + mode.width ≤ bytes.length) (hx : x < mode.width) (hk : k < 3) :
    channelOf mode.subtype bytes source uv x k = .ok (shown mode.subtype bytes source uv x k) := by
  unfold channelOf shown lineBytes at *
  by_cases hrgb : mode.subtype = MFVideoFormat_RGB32
  · rw [if_pos hrgb] at hsource
    simp only [hrgb, if_true]
    exact fetch_getD 0 (by omega) hlong
  · have hpairs := hmode.pairs hrgb
    rw [if_neg hrgb] at hsource
    simp only [hrgb, if_false]
    by_cases hyuy : mode.subtype = MFVideoFormat_YUY2
    · rw [if_pos hyuy] at hsource
      simp only [hyuy, if_true, bind, Except.bind]
      rw [fetch_getD 0 (by omega) hlong, fetch_getD 0 (by omega) hlong, fetch_getD 0 (by omega) hlong]
      exact congrArg Except.ok (yuv_eq _ _ _ hk)
    · rw [if_neg hyuy] at hsource
      have huv := huv ((hmode.subtype.resolve_left hrgb).resolve_left hyuy)
      simp only [hyuy, if_false, bind, Except.bind]
      rw [fetch_getD 0 (by omega) hlong, fetch_getD 0 (by omega) hlong, fetch_getD 0 (by omega) hlong]
      exact congrArg Except.ok (yuv_eq _ _ _ hk)

structure Lined (bytes : Bytes) (top stride : Int) (mode : Mode) (y source uv : Nat) : Prop where
  starts : (source : Int) = top + stride * y
  fits : source + lineBytes mode ≤ bytes.length
  chroma : mode.subtype = MFVideoFormat_NV12 → (uv : Int) = top + stride * (y / 2 : Nat) + stride * mode.height ∧
    uv + mode.width ≤ bytes.length

theorem within_pixelOf {mode : Mode} (hmode : Shaped mode limits) {bytes : Bytes} (hlong : bytes.length ≤ 2 ^ 64)
    (top stride : Int) (y : Nat) {x k : Nat} (hx : x < mode.width) (hk : k < 3) :
    (pixelOf bytes top stride mode y x k).Within fun b =>
      ∃ source uv, Lined bytes top stride mode y source uv ∧ b = shown mode.subtype bytes source uv x k := by
  unfold pixelOf
  refine within_thrown.bind fun source hsource => within_thrown.bind fun uv huv => ?_
  obtain ⟨hoffset, hfits⟩ := line_ok hsource
  rw [Int.add_zero] at hoffset
  have hplane : mode.subtype = MFVideoFormat_NV12 → (uv : Int) = top + stride * (y / 2 : Nat) + stride * mode.height ∧
      uv + mode.width ≤ bytes.length := by
    intro hformat
    rw [if_pos hformat] at huv
    exact line_ok huv
  rw [channelOf_ok hmode hlong hfits (fun hformat => (hplane hformat).2) hx hk]
  exact ⟨source, uv, ⟨hoffset, hfits, hplane⟩, rfl⟩

structure Framed (bytes : Bytes) (top stride : Int) (mode : Mode) (limits : Native.Limits) (out : Bytes) : Prop where
  size : out.length = mode.width * mode.height * 3
  limit : out.length ≤ limits.nativeBytes
  rows : ∀ y < mode.height, ∀ x < mode.width, ∀ k < 3, ∃ source uv, Lined bytes top stride mode y source uv ∧
    out[(y * mode.width + x) * 3 + k]? = some (shown mode.subtype bytes source uv x k)

theorem place_div (y : Nat) {w x k : Nat} (hk : k < 3) (hx : x < w) :
    ((y * w * 3 + x * 3 + k) / 3 / w = y ∧ (y * w * 3 + x * 3 + k) / 3 % w = x) ∧ (y * w * 3 + x * 3 + k) % 3 = k := by
  have hpixel : (y * w * 3 + x * 3 + k) / 3 = y * w + x := by omega
  rw [hpixel]
  exact ⟨index_div hx, by omega⟩

theorem within_copyBgr (sample : SampleBuffers) (mode : Mode) : (copyBgr sample mode limits).Within fun out =>
    ∃ buffer locked bytes top, check sample.buffer = .ok buffer ∧ bufferLock buffer mode limits = .ok locked ∧
      locked.mapping.start = some bytes ∧ locked.row = some top ∧ Framed bytes top locked.stride mode limits out := by
  unfold copyBgr
  refine within_thrown.bind fun _ hlimits => within_thrown.bind fun _ hmode => within_thrown.bind fun count _ =>
    within_thrown.bind fun total _ => within_thrown.bind fun _ _ => within_thrown.bind fun _ _ =>
    within_thrown.bind fun buffer hbuffer => within_thrown.bind fun locked hlocked =>
    within_thrown.bind fun _ hsize => ?_
  have hnative : limits.nativeBytes ≤ 33554432 := by
    unfold Limits.validate at hlimits
    split at hlimits
    · cases hlimits
    · omega
  have hmode := geometry_shaped hmode
  have hlength := hmode.size
  split
  · rename_i top bytes hrow hbytes
    have hsize := require_ok hsize
    have hlong : bytes.length ≤ 2 ^ 64 := by
      rw [locked.mapping.sized bytes hbytes]
      omega
    refine within_thrown.bind fun _ _ => within_thrown.bind fun _ _ => ?_
    refine Within.bind (assign_within (V := fun p => pixelOf bytes top locked.stride mode (p / 3 / mode.width)
      (p / 3 % mode.width) (p % 3)) _ (Bounds.length_replicate_le hlength hnative) ?_) fun out ⟨hout, hvalues⟩ =>
      within_thrown.bind fun _ _ => .ok ⟨buffer, locked, bytes, top, hbuffer, hlocked, hbytes, hrow, ?_⟩
    · intro a ha
      obtain ⟨y, hy, ha⟩ := List.mem_flatMap.mp ha
      obtain ⟨x, hx, ha⟩ := List.mem_flatMap.mp ha
      obtain ⟨k, hk, rfl⟩ := List.mem_map.mp ha
      rw [List.mem_range] at hy hx hk
      obtain ⟨hpixel, hchannel⟩ := place_div y hk hx
      have hin := index_lt hx hy
      rw [Nat.mul_comm mode.height] at hin
      refine ⟨?_, by rw [hpixel.1, hpixel.2, hchannel], ?_⟩
      · rw [List.length_replicate]
        show y * mode.width * 3 + x * 3 + k < _
        omega
      · rw [hpixel.1, hpixel.2, hchannel]
        exact (within_pixelOf hmode hlong top locked.stride y hx hk).mono fun _ _ => trivial
    · rw [List.length_replicate] at hout
      refine ⟨hout, hout ▸ hlength, fun y hy x hx k hk => ?_⟩
      obtain ⟨b, hb, hwritten⟩ := hvalues (y * mode.width * 3 + x * 3 + k) (.inl ⟨_, List.mem_flatMap.mpr
        ⟨y, List.mem_range.mpr hy, List.mem_flatMap.mpr ⟨x, List.mem_range.mpr hx, List.mem_map.mpr
          ⟨k, List.mem_range.mpr hk, rfl⟩⟩⟩, rfl⟩)
      obtain ⟨hpixel, hchannel⟩ := place_div y hk hx
      simp only [hpixel.1, hpixel.2, hchannel] at hb
      have hread := within_pixelOf hmode hlong top locked.stride y hx hk
      rw [hb] at hread
      obtain ⟨source, uv, hline, rfl⟩ := hread
      refine ⟨source, uv, hline, ?_⟩
      rw [Nat.add_mul]
      exact hwritten
  · exact .fault

end Windows

/-- The copies of a frame read and write within their arrays, whatever the
sizes, and every byte of a copy is the one that its formula names. -/
theorem copies_within (limits : Native.Limits) :
    (∀ data l, (Bounds.copyRows data l limits).Within fun out => ∃ bytes row, data = some bytes ∧
      Linux.rowBytes l limits = .ok row ∧ Bounds.Copied bytes l limits row out) ∧
    (∀ packed w h format,
      (Bounds.toRgb packed w h format limits).Within (Bounds.Converted packed w h format limits)) ∧
    (∀ rgb w h, (Bounds.toI420 rgb w h limits).Within (Bounds.Planes rgb w h limits)) ∧
    ∀ sample mode, (Windows.copyBgr sample mode limits).Within fun out => ∃ buffer locked bytes top,
      Windows.check sample.buffer = .ok buffer ∧ Windows.bufferLock buffer mode limits = .ok locked ∧
      locked.mapping.start = some bytes ∧ locked.row = some top ∧
      Windows.Framed bytes top locked.stride mode limits out :=
  ⟨Bounds.within_copyRows, Bounds.within_toRgb, Bounds.within_toI420, Windows.within_copyBgr⟩

/-- The red of a pixel whose luma is below 16. -/
theorem toRgb_below_black : ((Bounds.toRgb [0, 128, 0, 255] 2 1 .yuyv601 {}).toOption.bind (·[0]?)) = some 203 ∧
    Bounds.bt601 0 128 255 0 = 184 := by
  decide +kernel

end WotAv.Capture
