import Arboretum.Proofs.Predict.RowBlocks
import Arboretum.Proofs.Predict.Scores

/-!
The computations that predictions run for each row. For a model that passed the check every one of
them finds all that it looks up and returns as many entries as a row of the answer has, so blocks
of rows are filled to the end.
-/

namespace Arboretum

open Predict

variable {α : Type}

def rowOf (input : Array α) (numFeature row : Nat) : Array α :=
  input.extract (row * numFeature) (row * numFeature + numFeature)

private theorem inputRow?_eq {input : Array α} {numFeature numRow row : Nat}
    (hinput : input.size = numRow * numFeature) (hrow : row < numRow) :
    inputRow? input numFeature row = some (rowOf input numFeature row) := by
  have hle := Nat.mul_le_mul_right numFeature (Nat.succ_le_of_lt hrow)
  rw [Nat.succ_mul] at hle
  exact if_pos (by omega)

theorem size_rowOf {input : Array α} {numFeature numRow row : Nat}
    (hinput : input.size = numRow * numFeature) (hrow : row < numRow) :
    (rowOf input numFeature row).size = numFeature := by
  have hle := Nat.mul_le_mul_right numFeature (Nat.succ_le_of_lt hrow)
  rw [Nat.succ_mul] at hle
  rw [rowOf, Array.size_extract]
  omega

theorem getElem?_flatMap {β : Type} {row : β → List α} {rows : List β} {stride k j : Nat}
    (hrow : ∀ r ∈ rows, (row r).length = stride) (hj : j < stride) :
    (rows.flatMap row)[k * stride + j]? = rows[k]?.bind fun r => (row r)[j]? := by
  induction rows generalizing k with
  | nil => rfl
  | cons r rows ih =>
    obtain ⟨hfirst, hrest⟩ := List.forall_mem_cons.mp hrow
    rw [List.flatMap_cons]
    cases k with
    | zero =>
      rw [Nat.zero_mul, Nat.zero_add, List.getElem?_append_left (hfirst ▸ hj)]
      rfl
    | succ k =>
      have hskip : (k + 1) * stride + j - stride = k * stride + j := by
        rw [Nat.succ_mul]
        omega
      rw [List.getElem?_append_right (by rw [hfirst, Nat.succ_mul]; omega), hfirst, hskip]
      exact ih hrest

theorem getElem?_flatMap_range {row : Nat → List α} {stride n r j : Nat}
    (hrow : ∀ r < n, (row r).length = stride) (hr : r < n) (hj : j < stride) :
    ((List.range n).flatMap row)[r * stride + j]? = (row r)[j]? := by
  rw [getElem?_flatMap (fun r hr => hrow r (List.mem_range.mp hr)) hj, List.getElem?_range hr,
    Option.bind_some]

namespace Predict

/-- The rows of a block of scores, brought into the order target, row, class. -/
theorem transpose?_spec {numRow numTarget numClass : Nat} {scores : Array α}
    (hsize : scores.size = numRow * (numTarget * numClass)) :
    ∃ out, transpose? numRow numTarget numClass scores = some out ∧
      out.size = numTarget * numRow * numClass ∧
      ∀ t < numTarget, ∀ r < numRow, ∀ c < numClass,
        out[(t * numRow + r) * numClass + c]? = scores[r * (numTarget * numClass) +
          (t * numClass + c)]? := by
  have hplace : ∀ r t c, (r * numTarget + t) * numClass + c =
      r * (numTarget * numClass) + (t * numClass + c) := by
    intro r t c
    ring
  have hfound : ∀ i ∈ List.range (numTarget * numRow * numClass), ∃ score,
      scores[(i / numClass % numRow * numTarget + i / numClass / numRow) * numClass +
        i % numClass]? = some score := by
    intro i hi
    rw [List.mem_range] at hi
    have hclass : 0 < numClass := Nat.pos_of_ne_zero fun h => by simp [h] at hi
    have hcell : i / numClass < numTarget * numRow := (Nat.div_lt_iff_lt_mul hclass).mpr hi
    have hrow : 0 < numRow := Nat.pos_of_ne_zero fun h => by simp [h] at hcell
    have ht : i / numClass / numRow < numTarget := (Nat.div_lt_iff_lt_mul hrow).mpr hcell
    have hr := Nat.mod_lt (i / numClass) hrow
    refine exists_entry hsize ?_
    rw [hplace]
    exact ScoreLayout.place_lt hr (ScoreLayout.place_lt ht (Nat.mod_lt i hclass))
  obtain ⟨entries, hentries⟩ := exists_mapM hfound
  have hlength := length_of_mapM hentries
  rw [List.length_range] at hlength
  refine ⟨entries.toArray, ?_, by rw [List.size_toArray, hlength], ?_⟩
  · unfold transpose?
    simp only [hentries, Option.bind_eq_bind, Option.bind_some, Option.pure_def]
  · intro t ht r hr c hc
    have hlt : (t * numRow + r) * numClass + c < numTarget * numRow * numClass :=
      ScoreLayout.place_lt (ScoreLayout.place_lt ht hr) hc
    have hcell : ((t * numRow + r) * numClass + c) / numClass = t * numRow + r := by
      rw [Nat.mul_comm, Nat.mul_add_div (by omega), Nat.div_eq_of_lt hc, Nat.add_zero]
    have hclass : ((t * numRow + r) * numClass + c) % numClass = c := by
      rw [Nat.mul_comm, Nat.mul_add_mod, Nat.mod_eq_of_lt hc]
    have hrow : (t * numRow + r) % numRow = r := by
      rw [Nat.mul_comm, Nat.mul_add_mod, Nat.mod_eq_of_lt hr]
    have htarget : (t * numRow + r) / numRow = t := by
      rw [Nat.mul_comm, Nat.mul_add_div (by omega), Nat.div_eq_of_lt hr, Nat.add_zero]
    rw [List.getElem?_toArray, getElem?_of_mapM hentries, List.getElem?_range hlt,
      Option.bind_some, hcell, hclass, hrow, htarget, hplace]

/-- A computation that returns a row of the answer for every row with the given number of
features. -/
def RowKernel.Fills (kernel : RowKernel α) (numFeature : Nat) : Prop :=
  ∀ row : Array α, row.size = numFeature →
    ∃ entries, kernel.entries? row = some entries ∧ entries.size = kernel.stride

/-- What a computation returns for one row of an input. -/
def RowKernel.answer (kernel : RowKernel α) (input : Array α) (numFeature row : Nat) : List α :=
  ((kernel.entries? (rowOf input numFeature row)).getD #[]).toList

variable {kernel : RowKernel α} {input : Array α} {numFeature numRow : Nat}

theorem RowKernel.answer_eq {row : Nat} {entries : Array α}
    (h : kernel.entries? (rowOf input numFeature row) = some entries) :
    kernel.answer input numFeature row = entries.toList := by
  rw [answer, h, Option.getD_some]

theorem RowKernel.Fills.length_answer (hfills : kernel.Fills numFeature)
    (hinput : input.size = numRow * numFeature) {row : Nat} (hrow : row < numRow) :
    (kernel.answer input numFeature row).length = kernel.stride := by
  obtain ⟨entries, hentries, hsize⟩ := hfills _ (size_rowOf hinput hrow)
  rw [answer, hentries, Option.getD_some, Array.length_toList, hsize]

/-- A block of whole rows is filled to the end. -/
theorem RowKernel.Fills.fillRows_eq (hfills : kernel.Fills numFeature)
    (hinput : input.size = numRow * numFeature) (hstride : kernel.stride ≠ 0) {first rows : Nat}
    {block : Array α} (hlast : first + rows ≤ numRow) (hblock : block.size = rows * kernel.stride) :
    fillRows input numFeature kernel first block =
      .ok ((List.range' first rows).flatMap (kernel.answer input numFeature)).toArray := by
  have hfound : ∀ offset ∈ List.range rows,
      found ((inputRow? input numFeature (first + offset)).bind kernel.entries?) =
        .ok (kernel.answer input numFeature (first + offset)).toArray := by
    intro offset hoffset
    rw [List.mem_range] at hoffset
    have hrow : first + offset < numRow := by omega
    obtain ⟨entries, hentries, -⟩ := hfills _ (size_rowOf hinput hrow)
    rw [inputRow?_eq hinput hrow, Option.bind_some, answer, hentries]
    rfl
  rw [fillRows, hblock, Nat.mul_div_cancel _ (Nat.pos_of_ne_zero hstride), mapM_eq_ok hfound,
    ok_bind]
  simp only [pure_eq_ok]
  congr 1
  apply Array.ext'
  rw [Array.toList_flatten, List.range'_eq_map_range, List.flatMap_map, List.flatMap_def,
    List.map_map]
  rfl

end Predict

end Arboretum
