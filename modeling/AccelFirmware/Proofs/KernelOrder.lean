import AccelFirmware.Classification.Weights
import Mathlib.Data.List.GetD
import Mathlib.Data.List.Nodup
import Mathlib.Data.Set.Function
import Mathlib.Order.Interval.Set.Defs

/-!
# The order of the kernel

Where the values of a weight matrix go when they are interleaved. The kernel takes four rows at a time, and every value of these
rows once; the rows that are left over stay where they are. So the order is a permutation of the places, the same one for all
matrices of a shape.
-/

namespace AccelFirmware

/-! ## Pieces of one length -/

section
variable {α : Type} {f : Nat → List α} {n : Nat}

theorem length_flatMap_range {size : Nat} (h : ∀ i, (f i).length = size) (n : Nat) :
    ((List.range n).flatMap f).length = size * n := by
  simp [List.length_flatMap, h, Nat.mul_comm]

theorem getElem?_flatMap_range (size : Nat) (h : ∀ i, (f i).length = size) {i j : Nat} (hi : i < n) (hj : j < size) :
    ((List.range n).flatMap f)[size * i + j]? = (f i)[j]? := by
  induction n with
  | zero => omega
  | succ n ih =>
    rw [List.range_succ, List.flatMap_append, List.flatMap_singleton]
    have hlength := length_flatMap_range h n
    by_cases hlast : i = n
    · rw [List.getElem?_append_right (by rw [hlength, hlast]; omega), hlength, hlast, Nat.add_sub_cancel_left]
    · have hbefore : i < n := by omega
      have hend : size * i + size ≤ size * n := by
        rw [← Nat.mul_add_one]
        exact Nat.mul_le_mul_left size hbefore
      rw [List.getElem?_append_left (by rw [hlength]; omega), ih hbefore]

/-- Pieces are apart if a key tells to which of them an item belongs. -/
theorem nodup_flatMap_range (key : α → Nat) (hkey : ∀ i, ∀ a ∈ f i, key a = i) (h : ∀ i, (f i).Nodup) (n : Nat) :
    ((List.range n).flatMap f).Nodup := by
  refine List.nodup_flatMap.2 ⟨fun i _ => h i, List.nodup_range.imp fun hne => ?_⟩
  intro a ha hb
  exact hne ((hkey _ a ha).symm.trans (hkey _ a hb))

end

namespace WeightMatrix

/-! ## Places -/

theorem mem_squareOrder_iff {p : Nat × Nat} : p ∈ squareOrder ↔ p.1 < 4 ∧ p.2 < 4 := by
  constructor
  · have hall : ∀ p ∈ squareOrder, p.1 < 4 ∧ p.2 < 4 := by decide
    exact hall p
  · obtain ⟨row, col⟩ := p
    have hall : ∀ row < 4, ∀ col < 4, (row, col) ∈ squareOrder := by decide
    exact fun h => hall row h.1 col h.2

theorem nodup_squareOrder : squareOrder.Nodup := by decide

variable {rows cols block : Nat}

theorem mem_blockOrder_iff {p : Nat × Nat} : p ∈ blockOrder cols block ↔ p.1 / 4 = block ∧ p.2 < cols := by
  obtain ⟨row, col⟩ := p
  simp only [blockOrder, List.mem_append, List.mem_flatMap, List.mem_range, List.mem_map, mem_squareOrder_iff, Prod.mk.injEq,
    Prod.exists]
  constructor
  · rintro (⟨chunk, hchunk, r, c, ⟨hr, hc⟩, rfl, rfl⟩ | ⟨j, hj, r, hr, rfl, rfl⟩)
    · omega
    · omega
  · rintro ⟨rfl, hcol⟩
    by_cases hchunk : col / 4 < cols / 4
    · exact Or.inl ⟨col / 4, hchunk, row % 4, col % 4, by omega, by omega, by omega⟩
    · exact Or.inr ⟨col - (cols - cols % 4), by omega, row % 4, by omega, by omega, by omega⟩

theorem nodup_blockOrder (cols block : Nat) : (blockOrder cols block).Nodup := by
  refine List.nodup_append.2 ⟨?_, ?_, ?_⟩
  · refine nodup_flatMap_range (fun p => p.2 / 4) ?_ ?_ _
    · rintro chunk p hp
      obtain ⟨q, hq, rfl⟩ := List.mem_map.1 hp
      have := (mem_squareOrder_iff.1 hq).2
      simp only
      omega
    · intro chunk
      refine nodup_squareOrder.map fun p q h => ?_
      simp only [Prod.mk.injEq] at h
      exact Prod.ext (by omega) (by omega)
  · refine nodup_flatMap_range (fun p => p.2 - (cols - cols % 4)) ?_ ?_ _
    · rintro j p hp
      obtain ⟨row, -, rfl⟩ := List.mem_map.1 hp
      simp only
      omega
    · intro j
      refine List.nodup_range.map fun p q h => ?_
      simp only [Prod.mk.injEq] at h
      omega
  · -- The squares end where the columns that are left over begin.
    intro p hsquare q hrest hpq
    obtain ⟨chunk, hchunk, hp⟩ := List.mem_flatMap.1 hsquare
    obtain ⟨place, hplace, rfl⟩ := List.mem_map.1 hp
    obtain ⟨j, -, hq⟩ := List.mem_flatMap.1 hrest
    obtain ⟨row, -, rfl⟩ := List.mem_map.1 hq
    have hcol := (mem_squareOrder_iff.1 hplace).2
    have hlast := List.mem_range.1 hchunk
    simp only [Prod.mk.injEq] at hpq
    omega

theorem length_squares (cols block : Nat) : ((List.range (cols / 4)).flatMap fun chunk =>
    squareOrder.map fun (row, col) => (4 * block + row, 4 * chunk + col)).length = 16 * (cols / 4) :=
  length_flatMap_range (fun _ => List.length_map ..) _

theorem length_blockOrder (cols block : Nat) : (blockOrder cols block).length = 4 * cols := by
  have hrest : ((List.range (cols % 4)).flatMap fun j =>
      (List.range 4).map fun row => (4 * block + row, cols - cols % 4 + j)).length = 4 * (cols % 4) :=
    length_flatMap_range (fun _ => List.length_map ..) _
  rw [blockOrder, List.length_append, length_squares, hrest]
  omega

theorem getElem?_square {chunk k : Nat} (hchunk : chunk < cols / 4) (hk : k < squareOrder.length) :
    (blockOrder cols block)[16 * chunk + k]? = some (4 * block + squareOrder[k].1, 4 * chunk + squareOrder[k].2) := by
  have hsize : k < 16 := hk
  rw [blockOrder, List.getElem?_append_left (by rw [length_squares]; omega),
    getElem?_flatMap_range 16 (fun _ => List.length_map ..) hchunk hsize, List.getElem?_map,
    List.getElem?_eq_getElem hk, Option.map_some]

theorem getElem?_leftover {j row : Nat} (hj : j < cols % 4) (hrow : row < 4) :
    (blockOrder cols block)[16 * (cols / 4) + 4 * j + row]? = some (4 * block + row, cols - cols % 4 + j) := by
  have hplace : 16 * (cols / 4) + 4 * j + row - 16 * (cols / 4) = 4 * j + row := by omega
  rw [blockOrder, List.getElem?_append_right (by rw [length_squares]; omega), length_squares, hplace,
    getElem?_flatMap_range 4 (fun _ => List.length_map ..) hj hrow, List.getElem?_map, List.getElem?_range hrow,
    Option.map_some]

/-! ## The order -/

/-- The places of all full blocks of four rows, in the order of the kernel. -/
def kernelOrder (rows cols : Nat) : List (Nat × Nat) := (List.range (rows / 4)).flatMap (blockOrder cols)

theorem mem_kernelOrder_iff {p : Nat × Nat} : p ∈ kernelOrder rows cols ↔ p.1 < 4 * (rows / 4) ∧ p.2 < cols := by
  simp only [kernelOrder, List.mem_flatMap, List.mem_range, mem_blockOrder_iff]
  constructor
  · rintro ⟨block, hblock, rfl, hcol⟩
    exact ⟨by omega, hcol⟩
  · rintro ⟨hrow, hcol⟩
    exact ⟨p.1 / 4, by omega, rfl, hcol⟩

theorem nodup_kernelOrder (rows cols : Nat) : (kernelOrder rows cols).Nodup :=
  nodup_flatMap_range (fun p => p.1 / 4) (fun _ _ hp => (mem_blockOrder_iff.1 hp).1) (nodup_blockOrder cols) _

theorem length_kernelOrder (rows cols : Nat) : (kernelOrder rows cols).length = 4 * (rows / 4) * cols := by
  rw [kernelOrder, length_flatMap_range (length_blockOrder cols), Nat.mul_right_comm]

theorem getElem?_kernelOrder {o : Nat} (hblock : block < rows / 4) (ho : o < 4 * cols) :
    (kernelOrder rows cols)[4 * block * cols + o]? = (blockOrder cols block)[o]? := by
  rw [kernelOrder, Nat.mul_right_comm, getElem?_flatMap_range _ (length_blockOrder cols) hblock ho]

/-! ## Indices -/

/-- For every position of the interleaved values the index that its value had: the full blocks in the order of the kernel, and then
the rows that are left over. -/
def sources (rows cols : Nat) : List Nat :=
  (kernelOrder rows cols).map (fun p => p.1 * cols + p.2) ++ List.range' (4 * (rows / 4) * cols) (rows % 4 * cols)

def sourceIndex (rows cols i : Nat) : Nat := (sources rows cols).getD i 0

theorem size_eq (rows cols : Nat) : rows * cols = 4 * (rows / 4) * cols + rows % 4 * cols := by
  rw [← Nat.add_mul, Nat.div_add_mod]

theorem index_lt {row col full : Nat} (hrow : row < full) (hcol : col < cols) : row * cols + col < full * cols := by
  have hle : (row + 1) * cols ≤ full * cols := Nat.mul_le_mul_right cols hrow
  rw [Nat.add_one_mul] at hle
  omega

theorem index_injOn {p q : Nat × Nat} (hp : p.2 < cols) (hq : q.2 < cols) (h : p.1 * cols + p.2 = q.1 * cols + q.2) : p = q := by
  have hpos : 0 < cols := by omega
  have hdiv (p : Nat × Nat) (hp : p.2 < cols) : (p.1 * cols + p.2) / cols = p.1 := by
    rw [Nat.mul_comm, Nat.mul_add_div hpos, Nat.div_eq_of_lt hp, Nat.add_zero]
  have hrow : p.1 = q.1 := by rw [← hdiv p hp, h, hdiv q hq]
  rw [hrow] at h
  exact Prod.ext hrow (by omega)

theorem mem_sources_iff {i : Nat} : i ∈ sources rows cols ↔ i < rows * cols := by
  rw [sources, List.mem_append, List.mem_map, List.mem_range'_1, size_eq rows cols]
  constructor
  · rintro (⟨p, hp, rfl⟩ | ⟨-, hi⟩)
    · have hplace := mem_kernelOrder_iff.1 hp
      have := index_lt hplace.1 hplace.2
      omega
    · exact hi
  · intro hi
    by_cases hfull : i < 4 * (rows / 4) * cols
    · have hpos : 0 < cols := Nat.pos_of_ne_zero fun hzero => by simp [hzero] at hfull
      refine Or.inl ⟨(i / cols, i % cols), mem_kernelOrder_iff.2 ⟨?_, Nat.mod_lt i hpos⟩, Nat.div_add_mod' i cols⟩
      exact (Nat.div_lt_iff_lt_mul hpos).2 hfull
    · exact Or.inr ⟨by omega, hi⟩

theorem nodup_sources (rows cols : Nat) : (sources rows cols).Nodup := by
  refine List.nodup_append.2 ⟨?_, List.nodup_range', ?_⟩
  · refine (nodup_kernelOrder rows cols).map_on fun p hp q hq h => ?_
    exact index_injOn (mem_kernelOrder_iff.1 hp).2 (mem_kernelOrder_iff.1 hq).2 h
  · intro i hi j hj hij
    obtain ⟨p, hp, rfl⟩ := List.mem_map.1 hi
    have hplace := mem_kernelOrder_iff.1 hp
    have hlt := index_lt hplace.1 hplace.2
    have hle := (List.mem_range'_1.1 hj).1
    omega

theorem sources_perm (rows cols : Nat) : (sources rows cols).Perm (List.range (rows * cols)) :=
  (List.perm_ext_iff_of_nodup (nodup_sources rows cols) List.nodup_range).2 fun _ => by
    rw [mem_sources_iff, List.mem_range]

theorem length_sources (rows cols : Nat) : (sources rows cols).length = rows * cols := by
  rw [(sources_perm rows cols).length_eq, List.length_range]

theorem sourceIndex_eq {i : Nat} (h : i < (sources rows cols).length) : sourceIndex rows cols i = (sources rows cols)[i] :=
  List.getD_eq_getElem _ _ h

/-- Every index is the source of exactly one position. -/
theorem bijOn_sourceIndex (rows cols : Nat) :
    Set.BijOn (sourceIndex rows cols) (Set.Iio (rows * cols)) (Set.Iio (rows * cols)) := by
  have hlength := length_sources rows cols
  refine ⟨fun i hi => ?_, fun i hi j hj h => ?_, fun k hk => ?_⟩
  · have hi : i < (sources rows cols).length := hlength ▸ hi
    rw [sourceIndex_eq hi]
    exact mem_sources_iff.1 (List.getElem_mem hi)
  · have hi : i < (sources rows cols).length := hlength ▸ hi
    have hj : j < (sources rows cols).length := hlength ▸ hj
    rw [sourceIndex_eq hi, sourceIndex_eq hj] at h
    exact (nodup_sources rows cols).getElem_inj_iff.1 h
  · obtain ⟨i, hi, hki⟩ := List.getElem_of_mem (mem_sources_iff.2 hk)
    exact ⟨i, hlength ▸ hi, (sourceIndex_eq hi).trans hki⟩

/-! ## Interleaved values -/

variable {w : WeightMatrix}

theorem size_of_checkShape (h : w.checkShape = .ok ()) : w.rows * w.cols = w.values.length := by
  rw [checkShape] at h
  split at h
  · assumption
  · cases h

theorem interleave_eq (h : w.checkShape = .ok ()) : w.interleave =
    (kernelOrder w.rows w.cols).map (fun p => w.entry p.1 p.2) ++ w.values.drop (4 * (w.rows / 4) * w.cols) := by
  have hsize := size_of_checkShape h
  have hblocks : (List.range w.blocks).flatMap (blockOrder w.cols) = kernelOrder w.rows w.cols ∧
      4 * w.blocks * w.cols = 4 * (w.rows / 4) * w.cols := by
    rcases Nat.eq_zero_or_pos w.cols with hzero | hpos
    · have hnone : w.blocks = 0 := by simp [blocks, hzero]
      have hempty : (kernelOrder w.rows w.cols).length = 0 := by simp [length_kernelOrder, hzero]
      refine ⟨?_, by rw [hzero, Nat.mul_zero, Nat.mul_zero]⟩
      rw [hnone, List.length_eq_zero_iff.1 hempty]
      rfl
    · have hblocks : w.blocks = w.rows / 4 := by
        rw [blocks, ← hsize, Nat.mul_comm 4, ← Nat.div_div_eq_div_mul, Nat.mul_div_cancel _ hpos]
      rw [hblocks]
      exact ⟨rfl, rfl⟩
  rw [interleave, hblocks.2, ← hblocks.1, List.map_flatMap]

theorem full_le (h : w.checkShape = .ok ()) : 4 * (w.rows / 4) * w.cols ≤ w.values.length := by
  rw [← size_of_checkShape h, size_eq w.rows w.cols]
  exact Nat.le_add_right _ _

theorem values_eq_map (w : WeightMatrix) : w.values = (List.range w.values.length).map fun i => w.values.getD i 0 := by
  refine List.ext_getElem (by simp) fun i hi _ => ?_
  rw [List.getElem_map, List.getElem_range, List.getD_eq_getElem _ _ hi]

/-- Every value comes from its source. -/
theorem interleave_eq_map_sources (h : w.checkShape = .ok ()) :
    w.interleave = (sources w.rows w.cols).map fun i => w.values.getD i 0 := by
  have hrest : w.values.drop (4 * (w.rows / 4) * w.cols) =
      (List.range' (4 * (w.rows / 4) * w.cols) (w.rows % 4 * w.cols)).map fun i => w.values.getD i 0 := by
    have hsize := size_eq w.rows w.cols
    rw [size_of_checkShape h] at hsize
    conv_lhs => rw [values_eq_map w, hsize, List.range_eq_range', ← List.map_drop, List.drop_range', Nat.add_sub_cancel_left]
    simp
  rw [interleave_eq h, hrest, sources, List.map_append, List.map_map]
  rfl

theorem interleave_perm (h : w.checkShape = .ok ()) : w.interleave.Perm w.values := by
  have hperm := (sources_perm w.rows w.cols).map fun i => w.values.getD i 0
  rwa [← interleave_eq_map_sources h, size_of_checkShape h, ← values_eq_map] at hperm

theorem getElem?_interleave (h : w.checkShape = .ok ()) {i : Nat} (hi : i < w.values.length) :
    w.interleave[i]? = w.values[sourceIndex w.rows w.cols i]? := by
  have hplace : i < (sources w.rows w.cols).length := by rwa [length_sources, size_of_checkShape h]
  have hsource : (sources w.rows w.cols)[i] < w.values.length := by
    rw [← size_of_checkShape h]
    exact mem_sources_iff.1 (List.getElem_mem hplace)
  rw [interleave_eq_map_sources h, List.getElem?_map, List.getElem?_eq_getElem hplace, Option.map_some, sourceIndex_eq hplace,
    List.getElem?_eq_getElem hsource, List.getD_eq_getElem _ _ hsource]

/-- In a full block the place in the order settles the entry. -/
theorem getElem?_interleave_block (h : w.checkShape = .ok ()) {o : Nat} {place : Nat × Nat} (hblock : block < w.rows / 4)
    (hplace : (blockOrder w.cols block)[o]? = some place) :
    w.interleave[4 * block * w.cols + o]? = some (w.entry place.1 place.2) := by
  have ho : o < 4 * w.cols := by
    have hlength := (List.getElem?_eq_some_iff.1 hplace).1
    rwa [length_blockOrder] at hlength
  have horder : (kernelOrder w.rows w.cols)[4 * block * w.cols + o]? = some place := by
    rw [getElem?_kernelOrder hblock ho, hplace]
  have hlength := (List.getElem?_eq_some_iff.1 horder).1
  rw [interleave_eq h, List.getElem?_append_left (by rwa [List.length_map]), List.getElem?_map, horder, Option.map_some]

theorem getElem?_interleave_rest (h : w.checkShape = .ok ()) {i : Nat} (hi : 4 * (w.rows / 4) * w.cols ≤ i) :
    w.interleave[i]? = w.values[i]? := by
  have hlength : ((kernelOrder w.rows w.cols).map fun p => w.entry p.1 p.2).length = 4 * (w.rows / 4) * w.cols := by
    rw [List.length_map, length_kernelOrder]
  rw [interleave_eq h, List.getElem?_append_right (by rwa [hlength]), hlength, List.getElem?_drop, Nat.add_sub_cancel' hi]

/-! ## In place -/

/-- Writes the entries at some places over a list, one after the other from a position on, as a loop with a counter does; `none`
once an entry or a position does not exist. -/
def writeOver (w : WeightMatrix) : List (Nat × Nat) → Nat → List Int → Option (List Int)
  | [], _, out => some out
  | (row, col) :: places, position, out => do
      let value ← w.values[row * w.cols + col]?
      if position < out.length then w.writeOver places (position + 1) (out.set position value) else none

theorem writeOver_eq {places : List (Nat × Nat)} {position : Nat} {out : List Int}
    (hread : ∀ p ∈ places, p.1 * w.cols + p.2 < w.values.length) (hwrite : position + places.length ≤ out.length) :
    w.writeOver places position out =
      some (out.take position ++ places.map (fun p => w.entry p.1 p.2) ++ out.drop (position + places.length)) := by
  induction places generalizing position out with
  | nil => simp [writeOver]
  | cons p places ih =>
    obtain ⟨row, col⟩ := p
    have hentry : w.values[row * w.cols + col]? = some (w.entry row col) := by
      have hin := hread (row, col) List.mem_cons_self
      rw [entry, List.getD_eq_getElem _ _ hin, List.getElem?_eq_getElem hin]
    rw [List.length_cons] at hwrite
    have hin : position < out.length := by omega
    rw [writeOver, hentry, Option.bind_eq_bind, Option.bind_some, if_pos hin,
      ih (fun p hp => hread p (List.mem_cons_of_mem _ hp)) (by rw [List.length_set]; omega)]
    have hfront : (out.set position (w.entry row col)).take (position + 1) = out.take position ++ [w.entry row col] := by
      rw [List.take_add_one, List.take_set_of_le (Nat.le_refl _), List.getElem?_set_self hin]
      rfl
    rw [hfront, List.drop_set_of_lt (by omega), List.length_cons]
    simp [Nat.add_assoc, Nat.add_comm 1]

theorem writeOver_kernelOrder (h : w.checkShape = .ok ()) :
    w.writeOver (kernelOrder w.rows w.cols) 0 w.values = some w.interleave := by
  have hread : ∀ p ∈ kernelOrder w.rows w.cols, p.1 * w.cols + p.2 < w.values.length := by
    intro p hp
    have hplace := mem_kernelOrder_iff.1 hp
    exact Nat.lt_of_lt_of_le (index_lt hplace.1 hplace.2) (full_le h)
  rw [writeOver_eq hread (by rw [Nat.zero_add, length_kernelOrder]; exact full_le h), interleave_eq h]
  simp [length_kernelOrder]

/-- A matrix that has as many values as its shape says can be interleaved in place, and no index is out of range. In every block of
four rows the squares come from left to right, each in the order of a square, and then the columns that are left over; the rows that
are left over stay. Which index a position takes its value from is settled by the shape, every index comes up once, and no value is
lost. -/
theorem interleave_arranges (w : WeightMatrix) (h : w.checkShape = .ok ()) :
    w.writeOver (kernelOrder w.rows w.cols) 0 w.values = some w.interleave ∧
    w.interleave.length = w.values.length ∧
    (∀ block < w.rows / 4,
      (∀ chunk < w.cols / 4, ∀ k (_ : k < squareOrder.length), w.interleave[4 * block * w.cols + 16 * chunk + k]? =
        some (w.entry (4 * block + squareOrder[k].1) (4 * chunk + squareOrder[k].2))) ∧
      ∀ j < w.cols % 4, ∀ row < 4, w.interleave[4 * block * w.cols + 16 * (w.cols / 4) + 4 * j + row]? =
        some (w.entry (4 * block + row) (w.cols - w.cols % 4 + j))) ∧
    (∀ i, 4 * (w.rows / 4) * w.cols ≤ i → w.interleave[i]? = w.values[i]?) ∧
    (∀ i < w.values.length, w.interleave[i]? = w.values[sourceIndex w.rows w.cols i]?) ∧
    Set.BijOn (sourceIndex w.rows w.cols) (Set.Iio (w.rows * w.cols)) (Set.Iio (w.rows * w.cols)) ∧
    w.interleave.Perm w.values := by
  refine ⟨writeOver_kernelOrder h, (interleave_perm h).length_eq, fun block hblock => ⟨?_, ?_⟩,
    fun _ => getElem?_interleave_rest h, fun _ => getElem?_interleave h, bijOn_sourceIndex _ _, interleave_perm h⟩
  · intro chunk hchunk k hk
    rw [Nat.add_assoc]
    exact getElem?_interleave_block h hblock (getElem?_square hchunk hk)
  · intro j hj row hrow
    rw [Nat.add_assoc, Nat.add_assoc, ← Nat.add_assoc (16 * _)]
    exact getElem?_interleave_block h hblock (getElem?_leftover hj hrow)

/-- A square, a column and a row more. -/
def fiveByFive : WeightMatrix := ⟨5, 5, (List.range 25).map Int.ofNat⟩

theorem interleave_arranges_five : fiveByFive.checkShape = .ok () ∧
    fiveByFive.writeOver (kernelOrder 5 5) 0 fiveByFive.values = some fiveByFive.interleave ∧
    fiveByFive.interleave[3]? = some (fiveByFive.entry 1 2) ∧ fiveByFive.interleave[19]? = some (fiveByFive.entry 3 4) ∧
    fiveByFive.interleave[24]? = some 24 ∧ fiveByFive.interleave.Perm fiveByFive.values := by
  obtain ⟨hwrite, -, hblocks, hrest, -, -, hperm⟩ := interleave_arranges fiveByFive rfl
  obtain ⟨hsquares, hleftover⟩ := hblocks 0 (by decide)
  exact ⟨rfl, hwrite, hsquares 0 (by decide) 3 (by decide), hleftover 0 (by decide) 3 (by decide), hrest 24 (by decide), hperm⟩

end WeightMatrix

end AccelFirmware
