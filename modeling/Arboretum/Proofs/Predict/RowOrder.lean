import Arboretum.Proofs.Predict.BlockSizes
import Arboretum.Proofs.Predict.Kernel

/-!
Blocks of rows in any order. No two blocks of a buffer share an entry, and every entry is in one of
them, so where each row is replaced by a function of its number and of its old entries, the order of
the blocks cannot be seen in the buffer that they leave.
-/

namespace Arboretum

variable {α : Type} {stride n : Nat}

namespace RowBlock

def Holds (block : RowBlock) (place : Nat) : Prop :=
  block.offset ≤ place ∧ place < block.offset + block.size

instance (block : RowBlock) (place : Nat) : Decidable (block.Holds place) :=
  inferInstanceAs (Decidable (_ ∧ _))

def Apart (block other : RowBlock) : Prop := ∀ place, ¬ (block.Holds place ∧ other.Holds place)

theorem Apart.symm {block other : RowBlock} (h : block.Apart other) : other.Apart block :=
  fun place hboth => h place hboth.symm

/-- The block covers whole rows among the first ones of a buffer. -/
def IsWhole (stride n : Nat) (block : RowBlock) : Prop :=
  ∃ rows, block.offset = block.firstRow * stride ∧ block.size = rows * stride ∧
    block.firstRow + rows ≤ n

end RowBlock

/-- The entries of a tiling are those of its rows. -/
theorem Tiles.holds_iff {first last : Nat} {blocks : List RowBlock}
    (h : Tiles stride first last blocks) {place : Nat} :
    (∃ block ∈ blocks, block.Holds place) ↔ first * stride ≤ place ∧ place < last * stride := by
  induction h with
  | nil row => simp
  | @cons first last rows blocks h ih =>
    have hmiddle := Nat.mul_le_mul_right stride h.le
    rw [Nat.add_mul] at hmiddle ih
    rw [List.exists_mem_cons_iff, ih, RowBlock.Holds]
    dsimp only
    omega

theorem Tiles.pairwise_apart {first last : Nat} {blocks : List RowBlock}
    (h : Tiles stride first last blocks) : blocks.Pairwise RowBlock.Apart := by
  induction h with
  | nil row => exact .nil
  | @cons first last rows blocks h ih =>
    refine .cons (fun block hblock place hboth => ?_) ih
    have hbehind := (h.holds_iff.mp ⟨block, hblock, hboth.2⟩).1
    rw [Nat.add_mul] at hbehind
    exact Nat.not_lt.mpr hbehind hboth.1.2

private theorem rowBlocks_eq (threads : Nat) (hn : 0 < n) (hs : 0 < stride) :
    rowBlocks threads (n * stride) stride = [⟨0, 0, n * stride⟩] ∨
      ∃ rows, 0 < rows ∧ ceilDiv n rows ≤ max threads 1 ∧
        rowBlocks threads (n * stride) stride = (List.range (ceilDiv n rows)).map fun i =>
          ⟨i * rows, i * (rows * stride),
            min (rows * stride) (n * stride - i * (rows * stride))⟩ := by
  rw [rowBlocks, if_neg (by simp [hn.ne', hs.ne']), Nat.mul_div_cancel n hs]
  dsimp only
  split
  case isTrue => exact .inl rfl
  case isFalse hmany =>
    have hrows := blockInfo_pos hn.ne' hmany
    rw [ceilDiv_mul_mul hrows hs]
    refine .inr ⟨_, hrows, ?_, rfl⟩
    have heq := blockInfo_eq (Nat.le_refl 1) (Nat.lt_of_not_le hmany)
    rw [heq] at hmany ⊢
    dsimp only at hmany ⊢
    have hfew := ceilDiv_ceilDiv_le (Nat.zero_lt_of_lt (Nat.lt_of_not_le hmany)) hn
    omega

theorem rowBlocks_size_pos {threads : Nat} (hs : 0 < stride) {block : RowBlock}
    (hblock : block ∈ rowBlocks threads (n * stride) stride) : 0 < block.size := by
  rcases Nat.eq_zero_or_pos n with rfl | hn
  · rw [rowBlocks, if_pos (by simp)] at hblock
    cases hblock
  rcases rowBlocks_eq threads hn hs with hone | ⟨rows, hrows, -, hmany⟩
  · rw [hone, List.mem_singleton] at hblock
    subst hblock
    exact Nat.mul_pos hn hs
  · rw [hmany] at hblock
    obtain ⟨i, hi, rfl⟩ := List.mem_map.mp hblock
    have hlt := ceilDiv_mul_le hrows (List.mem_range.mp hi)
    have hleft := Nat.mul_lt_mul_of_pos_right hlt hs
    have hsize := Nat.mul_pos hrows hs
    rw [Nat.mul_assoc] at hleft
    show 0 < min (rows * stride) (n * stride - i * (rows * stride))
    omega

theorem length_rowBlocks_le (threads n : Nat) (hs : 0 < stride) :
    (rowBlocks threads (n * stride) stride).length ≤ max threads 1 := by
  rcases Nat.eq_zero_or_pos n with rfl | hn
  · rw [rowBlocks, if_pos (by simp)]
    exact Nat.zero_le _
  rcases rowBlocks_eq threads hn hs with hone | ⟨rows, -, hfew, hmany⟩
  · rw [hone]
    exact Nat.le_max_right _ _
  · rwa [hmany, List.length_map, List.length_range]

def singleRows (stride n : Nat) : List RowBlock :=
  (List.range n).map fun row => ⟨row, row * stride, stride⟩

private theorem singleRows_tiles (stride n : Nat) : Tiles stride 0 n (singleRows stride n) := by
  have htiles : ∀ k first, Tiles stride first (first + k)
      ((List.range' first k).map fun row => ⟨row, row * stride, stride⟩) := by
    intro k
    induction k with
    | zero => exact fun first => .nil first
    | succ k ih =>
      intro first
      have h : Tiles stride first (first + 1 + k) (⟨first, first * stride, 1 * stride⟩ ::
          (List.range' (first + 1) k).map fun row => ⟨row, row * stride, stride⟩) :=
        .cons (ih (first + 1))
      rwa [Nat.one_mul, Nat.add_right_comm] at h
  have h := htiles n 0
  rwa [← List.range_eq_range', Nat.zero_add] at h

section Rows

variable {out other entries : Array α} {first rows row : Nat}

theorem getElem?_rowOf (out : Array α) (stride row j : Nat) :
    (rowOf out stride row)[j]? = if j < stride then out[row * stride + j]? else none := by
  rw [rowOf, Array.getElem?_extract]
  split
  case isTrue h => rw [if_pos (by omega)]
  case isFalse h =>
    split
    case isTrue hj => rw [Array.getElem?_eq_none (by omega)]
    case isFalse => rfl

private theorem rowOf_congr {row' : Nat}
    (h : ∀ j < stride, out[row * stride + j]? = other[row' * stride + j]?) :
    rowOf out stride row = rowOf other stride row' := by
  refine Array.ext_getElem? fun j => ?_
  rw [getElem?_rowOf, getElem?_rowOf]
  split
  case isTrue hj => exact h j hj
  case isFalse => rfl

theorem eq_of_rowOf (hs : 0 < stride) (hout : out.size = n * stride)
    (hother : other.size = n * stride)
    (h : ∀ row < n, rowOf out stride row = rowOf other stride row) : out = other := by
  refine Array.ext_getElem? fun place => ?_
  by_cases hplace : place < n * stride
  · have hentry := congrArg (·[place % stride]?)
      (h (place / stride) ((Nat.div_lt_iff_lt_mul hs).mpr hplace))
    simpa only [getElem?_rowOf, if_pos (Nat.mod_lt place hs), Nat.div_add_mod'] using hentry
  · rw [Array.getElem?_eq_none (by omega), Array.getElem?_eq_none (by omega)]

private theorem rowOf_extract (hrow : row < rows) :
    rowOf (out.extract (first * stride) (first * stride + rows * stride)) stride row =
      rowOf out stride (first + row) := by
  refine rowOf_congr fun j hj => ?_
  have hle := Nat.mul_le_mul_right stride (Nat.succ_le_of_lt hrow)
  rw [Nat.succ_mul] at hle
  rw [Array.getElem?_extract, Nat.add_mul, Nat.add_assoc]
  split
  case isTrue => rfl
  case isFalse => rw [Array.getElem?_eq_none (by omega)]

private theorem getElem?_splice {start last : Nat} (hlast : last ≤ out.size)
    (hentries : start + entries.size = last) (place : Nat) :
    (out.extract 0 start ++ entries ++ out.extract last out.size)[place]? =
      if start ≤ place ∧ place < last then entries[place - start]? else out[place]? := by
  rw [Array.getElem?_append, Array.getElem?_append, Array.size_append, Array.size_extract,
    Nat.min_eq_left (by omega), Nat.sub_zero, hentries]
  rcases Nat.lt_or_ge place start with hfront | hfront
  · rw [if_pos (by omega), if_pos hfront, if_neg (by omega), Array.getElem?_extract,
      if_pos (by omega), Nat.zero_add]
  rcases Nat.lt_or_ge place last with hmiddle | hback
  · rw [if_pos hmiddle, if_neg (by omega), if_pos ⟨hfront, hmiddle⟩]
  · rw [if_neg (by omega), if_neg (by omega), Array.getElem?_extract]
    split
    case isTrue => rw [Nat.add_sub_cancel' hback]
    case isFalse => rw [Array.getElem?_eq_none (by omega)]

end Rows

/-- A fill goes through, and replaces every row by a function of its number in the whole buffer and
of its old entries. -/
def RewritesRows (stride : Nat) (rewrite : Nat → Array α → Array α)
    (fill : Nat → Array α → Result (Array α)) : Prop :=
  ∀ (first rows : Nat) (block : Array α), block.size = rows * stride →
    ∃ after, fill first block = .ok after ∧ after.size = block.size ∧
      ∀ k < rows, rowOf after stride k = rewrite (first + k) (rowOf block stride k)

namespace RewritesRows

variable {rewrite : Nat → Array α → Array α} {fill : Nat → Array α → Result (Array α)}
  {blocks : List RowBlock} {block : RowBlock} {out : Array α}

/-- One block: its rows are replaced, and no other. -/
theorem fillBlock_apply (hfill : RewritesRows stride rewrite fill) (hs : 0 < stride)
    (hblock : block.IsWhole stride n) (hout : out.size = n * stride) :
    ∃ after, (fillBlock fill block).apply out = (.ok (), after) ∧ after.size = n * stride ∧
      ∀ row < n, rowOf after stride row =
        if block.Holds (row * stride) then rewrite row (rowOf out stride row)
        else rowOf out stride row := by
  obtain ⟨first, offset, size⟩ := block
  obtain ⟨rows, hoffset, hlength, hlast⟩ := hblock
  dsimp only at hoffset hlength hlast
  subst hoffset hlength
  have hend := Nat.mul_le_mul_right stride hlast
  rw [Nat.add_mul, ← hout] at hend
  have hsize : (out.extract (first * stride) (first * stride + rows * stride)).size =
      rows * stride := by
    rw [Array.size_extract]
    omega
  obtain ⟨entries, hentries, hsame, hrows⟩ := hfill first rows _ hsize
  rw [hsize] at hsame
  have hsplice := getElem?_splice hend (by rw [hsame] : _ + entries.size = _)
  refine ⟨out.extract 0 (first * stride) ++ entries ++
    out.extract (first * stride + rows * stride) out.size, ?_, ?_, fun row hrow => ?_⟩
  · simp only [fillBlock, Edit.apply_bind, Edit.apply_get, Edit.apply_lift, hentries,
      Edit.apply_set]
  · rw [Array.size_append, Array.size_append, Array.size_extract, Array.size_extract, hsame]
    omega
  · have hholds : (⟨first, first * stride, rows * stride⟩ : RowBlock).Holds (row * stride) ↔
        first ≤ row ∧ row < first + rows := by
      rw [RowBlock.Holds, ← Nat.add_mul, Nat.mul_le_mul_right_iff hs, Nat.mul_lt_mul_right hs]
    simp only [hholds]
    split
    case isTrue hmine =>
      have hold := hrows (row - first) (by omega)
      rw [rowOf_extract (by omega), Nat.add_sub_cancel' hmine.1] at hold
      rw [← hold]
      refine rowOf_congr fun j hj => ?_
      have hle := Nat.mul_le_mul_right stride hmine.1
      have hlt := Nat.mul_le_mul_right stride (Nat.succ_le_of_lt hmine.2)
      rw [Nat.succ_mul, Nat.add_mul] at hlt
      rw [hsplice, if_pos (by omega), Nat.sub_mul]
      congr 1
      omega
    case isFalse hother =>
      refine rowOf_congr fun j hj => ?_
      have hrest : (row + 1) * stride ≤ first * stride ∨
          (first + rows) * stride ≤ row * stride := by
        rcases Nat.lt_or_ge row first with hlt | hge
        · exact .inl (Nat.mul_le_mul_right stride hlt)
        · exact .inr (Nat.mul_le_mul_right stride (by omega))
      rw [Nat.succ_mul, Nat.add_mul] at hrest
      rw [hsplice, if_neg (by omega)]

/-- Blocks that share no entry, in any order: the rows of all of them are replaced, each from what
it was at first. -/
theorem forM_apply (hfill : RewritesRows stride rewrite fill) (hs : 0 < stride)
    (hwhole : ∀ block ∈ blocks, block.IsWhole stride n) (hapart : blocks.Pairwise RowBlock.Apart)
    (hout : out.size = n * stride) :
    ∃ after, (blocks.forM (fillBlock fill)).apply out = (.ok (), after) ∧
      after.size = n * stride ∧
      ∀ row < n, rowOf after stride row =
        if ∃ block ∈ blocks, block.Holds (row * stride) then rewrite row (rowOf out stride row)
        else rowOf out stride row := by
  induction blocks generalizing out with
  | nil => exact ⟨out, rfl, hout, fun row _ => by simp⟩
  | cons block blocks ih =>
    obtain ⟨hfirst, hwhole⟩ := List.forall_mem_cons.mp hwhole
    obtain ⟨hhead, hapart⟩ := List.pairwise_cons.mp hapart
    obtain ⟨middle, hblock, hmiddle, hrows⟩ := hfill.fillBlock_apply hs hfirst hout
    obtain ⟨after, hblocks, hafter, hlater⟩ := ih hwhole hapart hmiddle
    refine ⟨after, ?_, hafter, fun row hrow => ?_⟩
    · rw [List.forM_eq_forM] at hblocks ⊢
      rw [List.forM_cons, Edit.apply_bind, hblock]
      exact hblocks
    · rw [hlater row hrow, hrows row hrow]
      simp only [List.exists_mem_cons_iff]
      by_cases hmine : block.Holds (row * stride)
      · -- No later block has the row.
        have hnone : ¬ ∃ other ∈ blocks, other.Holds (row * stride) := by
          rintro ⟨other, hother, hholds⟩
          exact hhead other hother _ ⟨hmine, hholds⟩
        rw [if_neg hnone, if_pos hmine, if_pos (.inl hmine)]
      · rw [if_neg hmine]
        exact if_congr (or_iff_right hmine).symm rfl rfl

/-- Whatever order the blocks of a tiling are filled in, every row is replaced. -/
theorem forM_tiles (hfill : RewritesRows stride rewrite fill) (hs : 0 < stride)
    (htiles : Tiles stride 0 n blocks) {order : List RowBlock} (horder : order.Perm blocks)
    (hout : out.size = n * stride) :
    ∃ after, (order.forM (fillBlock fill)).apply out = (.ok (), after) ∧
      after.size = n * stride ∧
      ∀ row < n, rowOf after stride row = rewrite row (rowOf out stride row) := by
  have hwhole : ∀ block ∈ order, block.IsWhole stride n := fun block hblock =>
    htiles.block (horder.mem_iff.mp hblock)
  have hapart : order.Pairwise RowBlock.Apart :=
    htiles.pairwise_apart.perm horder.symm RowBlock.Apart.symm
  obtain ⟨after, hforM, hafter, hrows⟩ := hfill.forM_apply hs hwhole hapart hout
  refine ⟨after, hforM, hafter, fun row hrow => ?_⟩
  rw [hrows row hrow, if_pos]
  simp only [horder.mem_iff, htiles.holds_iff]
  exact ⟨by omega, Nat.mul_lt_mul_of_pos_right hrow hs⟩

end RewritesRows

/-- The blocks of a buffer of whole rows have entries, begin where their first row does, share no
entry, leave none out, and are no more than the threads. A fill that replaces every row by a
function of its number and of its old entries leaves one buffer behind, row by row from the first to
the last, block by block in any order, and on every machine that starts its pool of workers. -/
theorem rowBlocks_any_order (threads : Nat) (hs : 0 < stride) (out : Array α)
    (hout : out.size = n * stride) :
    let blocks := rowBlocks threads out.size stride
    (∀ block ∈ blocks, 0 < block.size ∧ block.offset = block.firstRow * stride) ∧
    blocks.Pairwise RowBlock.Apart ∧
    (∀ place, (∃ block ∈ blocks, block.Holds place) ↔ place < out.size) ∧
    blocks.length ≤ max threads 1 ∧
    ∀ (rewrite : Nat → Array α → Array α) (fill : Nat → Array α → Result (Array α)),
      RewritesRows stride rewrite fill →
      ∃ after : Array α, after.size = out.size ∧
        (∀ row < n, rowOf after stride row = rewrite row (rowOf out stride row)) ∧
        ((singleRows stride n).forM (fillBlock fill)).apply out = (.ok (), after) ∧
        (∀ order : List RowBlock, order.Perm blocks →
          (order.forM (fillBlock fill)).apply out = (.ok (), after)) ∧
        ∀ machine : Machine, machine.startPool threads = .ok () →
          (machine.fillRowBlocks threads stride fill).apply out = (.ok (), after) := by
  intro blocks
  have hblocks : blocks = rowBlocks threads (n * stride) stride :=
    congrArg (rowBlocks threads · stride) hout
  have htiles : Tiles stride 0 n blocks := hblocks ▸ rowBlocks_tiles threads n hs.ne'
  refine ⟨fun block hblock => ⟨?_, ?_⟩, htiles.pairwise_apart, fun place => ?_, ?_,
    fun rewrite fill hfill => ?_⟩
  · exact rowBlocks_size_pos hs (hblocks ▸ hblock)
  · obtain ⟨rows, hoffset, -⟩ := htiles.block hblock
    exact hoffset
  · rw [htiles.holds_iff, hout]
    omega
  · exact hblocks ▸ length_rowBlocks_le threads n hs
  obtain ⟨after, hpass, hafter, hrows⟩ :=
    hfill.forM_tiles hs (singleRows_tiles stride n) (.refl _) hout
  have horders : ∀ order : List RowBlock, order.Perm blocks →
      (order.forM (fillBlock fill)).apply out = (.ok (), after) := by
    intro order horder
    obtain ⟨other, horder, hother, hrows'⟩ := hfill.forM_tiles hs htiles horder hout
    rw [horder, eq_of_rowOf hs hother hafter fun row hrow =>
      (hrows' row hrow).trans (hrows row hrow).symm]
  refine ⟨after, hafter.trans hout.symm, hrows, hpass, horders, fun machine hpool => ?_⟩
  have hstart : machine.start threads = .ok () := by rw [Machine.start, hpool]; rfl
  rw [Machine.fillRowBlocks, Edit.apply_bind, Edit.apply_get]
  dsimp only
  split
  case isTrue =>
    rw [Edit.apply_bind, hstart, Edit.apply_lift]
    exact horders blocks (.refl _)
  case isFalse => exact horders blocks (.refl _)

def addRowNumbers (stride first : Nat) (block : Array Nat) : Result (Array Nat) :=
  .ok (block.mapIdx fun place entry => entry + (first + place / stride))

private theorem addRowNumbers_rewrites (hs : 0 < stride) :
    RewritesRows stride (fun row entries => entries.map (· + row)) (addRowNumbers stride) := by
  intro first rows block hblock
  refine ⟨_, rfl, Array.size_mapIdx, fun k _ => Array.ext_getElem? fun j => ?_⟩
  rw [getElem?_rowOf, Array.getElem?_map, getElem?_rowOf]
  split
  case isTrue hj =>
    have hrow : (k * stride + j) / stride = k := by
      rw [Nat.mul_comm, Nat.mul_add_div hs, Nat.div_eq_of_lt hj, Nat.add_zero]
    rw [Array.getElem?_mapIdx, hrow]
  case isFalse => rfl

/-- Three rows for two threads, the last block first. -/
theorem rowBlocks_any_order_backwards : ∃ after : Array Nat,
    ((rowBlocks 2 6 2).reverse.forM (fillBlock (addRowNumbers 2))).apply #[7, 8, 7, 8, 7, 8] =
      (.ok (), after) ∧
    ((singleRows 2 3).forM (fillBlock (addRowNumbers 2))).apply #[7, 8, 7, 8, 7, 8] =
      (.ok (), after) ∧
    ((Machine.ofCores 4).fillRowBlocks 2 2 (addRowNumbers 2)).apply #[7, 8, 7, 8, 7, 8] =
      (.ok (), after) ∧
    rowOf after 2 2 = #[9, 10] := by
  obtain ⟨-, -, -, -, hfills⟩ := rowBlocks_any_order (n := 3) 2 (show 0 < 2 by decide)
    #[7, 8, 7, 8, 7, 8] rfl
  obtain ⟨after, -, hrows, hpass, horders, hmachines⟩ :=
    hfills _ _ (addRowNumbers_rewrites (by decide))
  refine ⟨after, horders _ (List.reverse_perm _), hpass, hmachines _ rfl, ?_⟩
  rw [hrows 2 (by decide)]
  decide +kernel

end Arboretum
