import Arboretum.Predict.RowBlocks
import Arboretum.Proofs.Result
import Mathlib.Tactic.Ring

/-!
The blocks of a buffer lie side by side and cover its rows. Filling them one after the other fills
the rows one after the other, however many threads they are cut for.
-/

namespace Arboretum

variable {α : Type}

/-- Blocks that cover the rows from one to another, each beginning where the last one ends. -/
inductive Tiles (stride : Nat) : Nat → Nat → List RowBlock → Prop
  | nil (row : Nat) : Tiles stride row row []
  | cons {first last rows : Nat} {blocks : List RowBlock}
      (h : Tiles stride (first + rows) last blocks) :
      Tiles stride first last (⟨first, first * stride, rows * stride⟩ :: blocks)

theorem Tiles.le {stride first last : Nat} {blocks : List RowBlock}
    (h : Tiles stride first last blocks) : first ≤ last := by
  induction h with
  | nil row => exact Nat.le_refl row
  | cons h ih => omega

/-- A block of a tiling covers whole rows and ends before the tiling does. -/
theorem Tiles.block {stride first last : Nat} {blocks : List RowBlock}
    (h : Tiles stride first last blocks) {block : RowBlock} (hb : block ∈ blocks) :
    ∃ rows, block.offset = block.firstRow * stride ∧ block.size = rows * stride ∧
      block.firstRow + rows ≤ last := by
  induction h with
  | nil row => simp at hb
  | @cons first last rows blocks h ih =>
    rcases List.mem_cons.mp hb with rfl | hb
    · exact ⟨rows, rfl, rfl, h.le⟩
    · exact ih hb

theorem ceilDiv_mul_le {n d i : Nat} (hd : 0 < d) (h : i < ceilDiv n d) : i * d < n := by
  rw [ceilDiv] at h
  have := (Nat.le_div_iff_mul_le hd).mp (Nat.succ_le_of_lt h)
  rw [Nat.succ_mul] at this
  omega

theorem le_ceilDiv_mul {n d : Nat} (hd : 0 < d) : n ≤ ceilDiv n d * d := by
  rw [ceilDiv]
  have := Nat.lt_div_mul_add hd (a := n + d - 1)
  omega

theorem ceilDiv_mul_mul {n d s : Nat} (hd : 0 < d) (hs : 0 < s) :
    ceilDiv (n * s) (d * s) = ceilDiv n d := by
  apply Nat.le_antisymm
  · by_contra hlt
    have h := ceilDiv_mul_le (Nat.mul_pos hd hs) (Nat.lt_of_not_le hlt)
    have hn := Nat.mul_le_mul_right s (le_ceilDiv_mul (n := n) hd)
    rw [← Nat.mul_assoc] at h
    omega
  · by_contra hlt
    have h := ceilDiv_mul_le hd (Nat.lt_of_not_le hlt)
    have hn := le_ceilDiv_mul (n := n * s) (Nat.mul_pos hd hs)
    rw [← Nat.mul_assoc] at hn
    have := Nat.mul_lt_mul_of_pos_right h hs
    omega

private theorem tiles_range (stride : Nat) {rows n : Nat} (k i : Nat) (h : i + k = ceilDiv n rows)
    (hrows : 0 < rows) :
    Tiles stride (min (i * rows) n) n ((List.range' i k).map fun i =>
      ⟨i * rows, i * (rows * stride), min (rows * stride) (n * stride - i * (rows * stride))⟩) := by
  induction k generalizing i with
  | zero =>
    have hle : n ≤ i * rows := by
      rw [Nat.add_zero] at h
      exact h ▸ le_ceilDiv_mul hrows
    rw [Nat.min_eq_right hle]
    exact .nil n
  | succ k ih =>
    have hlt : i * rows < n := ceilDiv_mul_le hrows (by omega)
    have hnext : min ((i + 1) * rows) n = i * rows + min rows (n - i * rows) := by
      rw [Nat.succ_mul]
      omega
    have hsize : min (rows * stride) (n * stride - i * (rows * stride)) =
        min rows (n - i * rows) * stride := by
      rw [← Nat.mul_assoc, ← Nat.sub_mul, ← Nat.mul_min_mul_right]
    rw [Nat.min_eq_left (Nat.le_of_lt hlt), List.range'_succ, List.map_cons, hsize,
      ← Nat.mul_assoc]
    refine .cons ?_
    rw [← hnext]
    exact ih (i + 1) (by omega)

theorem blockInfo_pos {threads n : Nat} (hn : n ≠ 0) (hmany : ¬ (blockInfo threads n 1).1 ≤ 1) :
    0 < (blockInfo threads n 1).2 := by
  unfold blockInfo at hmany ⊢
  dsimp only at hmany ⊢
  split at hmany
  · rename_i h
    rw [if_pos h]
    generalize min (max threads 1) (ceilDiv n (max 1 1)) = blocks at h
    exact Nat.div_pos (by omega) (by omega)
  · simp at hmany

theorem rowBlocks_tiles (threads n : Nat) {stride : Nat} (hs : stride ≠ 0) :
    Tiles stride 0 n (rowBlocks threads (n * stride) stride) := by
  have hpos := Nat.pos_of_ne_zero hs
  rw [rowBlocks]
  by_cases hn : n = 0
  · subst hn
    rw [if_pos (by simp)]
    exact .nil 0
  · rw [if_neg (by simp [hs, hn]), Nat.mul_div_cancel n hpos]
    dsimp only
    split
    · rename_i hone
      have h : Tiles stride 0 n [⟨0, 0 * stride, n * stride⟩] := by
        refine .cons ?_
        rw [Nat.zero_add]
        exact .nil n
      rwa [Nat.zero_mul] at h
    · rename_i hmany
      have hrows := blockInfo_pos hn hmany
      rw [ceilDiv_mul_mul hrows hpos, List.range_eq_range']
      have h := tiles_range stride (ceilDiv n (blockInfo threads n 1).2) 0 (Nat.zero_add _) hrows
      rwa [Nat.zero_mul, Nat.zero_min] at h

theorem length_flatMap {β : Type} {row : β → List α} {stride : Nat} {rows : List β}
    (hrow : ∀ r ∈ rows, (row r).length = stride) :
    (rows.flatMap row).length = rows.length * stride := by
  rw [List.length_flatMap, List.map_congr_left hrow, List.map_const']
  simp

/-- Filling blocks one after the other puts the rows that they cover behind what was there. -/
theorem fillBlocks_apply {stride first last : Nat} {blocks : List RowBlock}
    {fill : Nat → Array α → Result (Array α)} {row : Nat → List α}
    (ht : Tiles stride first last blocks) (hrow : ∀ r < last, (row r).length = stride)
    (hfill : ∀ first rows block, first + rows ≤ last → block.size = rows * stride →
      fill first block = .ok ((List.range' first rows).flatMap row).toArray)
    (done rest : Array α) (hdone : done.size = first * stride)
    (hrest : rest.size = (last - first) * stride) :
    (blocks.forM (fillBlock fill)).apply (done ++ rest) =
      (.ok (), done ++ ((List.range' first (last - first)).flatMap row).toArray) := by
  induction ht generalizing done rest with
  | nil row =>
    have : rest = #[] := Array.eq_empty_of_size_eq_zero (by simpa using hrest)
    simp [this]
  | @cons first last rows blocks h ih =>
    have hle := h.le
    have hlen : ∀ first rows, first + rows ≤ last →
        ((List.range' first rows).flatMap row).length = rows * stride := by
      intro first rows hlast
      rw [length_flatMap, List.length_range']
      intro r hr
      rw [List.mem_range'_1] at hr
      exact hrow r (by omega)
    have hsplit : rest.size = rows * stride + (last - (first + rows)) * stride := by
      rw [hrest, ← Nat.add_mul]
      congr 1
      omega
    have hblock : (fillBlock fill ⟨first, first * stride, rows * stride⟩).apply (done ++ rest) =
        (.ok (), (done ++ ((List.range' first rows).flatMap row).toArray) ++
          rest.extract (rows * stride)) := by
      have hsize : ((done ++ rest).extract (first * stride)
          (first * stride + rows * stride)).size = rows * stride := by
        rw [Array.size_extract, Array.size_append]
        omega
      have hfront : (done ++ rest).extract 0 (first * stride) = done := by
        rw [← hdone, Array.extract_append]
        simp
      have hback : (done ++ rest).extract (first * stride + rows * stride) (done ++ rest).size =
          rest.extract (rows * stride) := by
        rw [Array.extract_append, ← hdone]
        simp
      simp only [fillBlock, Edit.apply_bind, Edit.apply_get, Edit.apply_lift,
        hfill first rows _ hle hsize, Edit.apply_set, hfront, hback]
    simp only [List.forM_eq_forM] at ih ⊢
    rw [List.forM_cons, Edit.apply_bind, hblock]
    simp only
    rw [ih hrow hfill (done ++ ((List.range' first rows).flatMap row).toArray)
      (rest.extract (rows * stride))]
    · have hrange : List.range' first (last - first) =
          List.range' first rows ++ List.range' (first + rows) (last - (first + rows)) := by
        rw [List.range'_append_1]
        congr 1
        omega
      rw [hrange, List.flatMap_append, ← List.append_toArray, Array.append_assoc]
    · rw [Array.size_append, hdone, List.size_toArray, hlen first rows hle, Nat.add_mul]
    · rw [Array.size_extract, hsplit]
      omega

namespace Machine

/-- Filling a buffer of whole rows fills every row, whatever it held before. If a pool is needed
that does not start, the buffer stays as it is. -/
theorem fillRowBlocks_outcome (machine : Machine) (threads : Nat) {n stride : Nat}
    (hs : stride ≠ 0) {fill : Nat → Array α → Result (Array α)} {row : Nat → List α}
    (hrow : ∀ r < n, (row r).length = stride)
    (hfill : ∀ first rows block, first + rows ≤ n → block.size = rows * stride →
      fill first block = .ok ((List.range' first rows).flatMap row).toArray)
    (out : Array α) (hout : out.size = n * stride) :
    (machine.fillRowBlocks threads stride fill).apply out =
        (.ok (), ((List.range n).flatMap row).toArray) ∨
      ∃ cause, machine.startPool threads = .error cause ∧
        (machine.fillRowBlocks threads stride fill).apply out =
          (.error (.threading cause), out) := by
  have hblocks := fillBlocks_apply (rowBlocks_tiles threads n hs) hrow hfill #[] out
    (by simp) (by simpa using hout)
  simp only [Array.empty_append, Nat.sub_zero, ← List.range_eq_range'] at hblocks
  rw [fillRowBlocks, Edit.apply_bind, Edit.apply_get]
  simp only [hout]
  split
  · cases hpool : machine.startPool threads with
    | ok started =>
      have hstart : machine.start threads = .ok () := by rw [start, hpool]; rfl
      left
      rw [Edit.apply_bind, hstart, Edit.apply_lift]
      exact hblocks
    | error cause =>
      have hstart : machine.start threads = .error (.threading cause) := by rw [start, hpool]; rfl
      right
      refine ⟨cause, rfl, ?_⟩
      rw [Edit.apply_bind, hstart, Edit.apply_lift]
  · exact .inl hblocks

theorem fillRowBlocks_zero (machine : Machine) (threads : Nat)
    {fill : Nat → Array α → Result (Array α)} (out : Array α) :
    (machine.fillRowBlocks threads 0 fill).apply out = (.ok (), out) := by
  have hblocks : rowBlocks threads out.size 0 = [] := by simp [rowBlocks]
  rw [fillRowBlocks, Edit.apply_bind, Edit.apply_get]
  simp only [hblocks]
  rfl

end Machine

end Arboretum
