import Arboretum.Proofs.Predict.RowBlocks

/-!
The sizes of the blocks that items are shared in. There are never more blocks than threads, and
they hold all items; but the size is found from the number of blocks, which was rounded up, so it
can come out below the least size that the number was found from.
-/

namespace Arboretum

theorem lt_ceilDiv_iff {n d i : Nat} (hd : 0 < d) : i < ceilDiv n d ↔ i * d < n := by
  constructor
  · exact ceilDiv_mul_le hd
  · intro h
    exact Nat.lt_of_mul_lt_mul_right (h.trans_le (le_ceilDiv_mul hd))

theorem ceilDiv_le_iff {n d i : Nat} (hd : 0 < d) : ceilDiv n d ≤ i ↔ n ≤ i * d := by
  rw [← Nat.not_lt, lt_ceilDiv_iff hd, Nat.not_lt]

private theorem ceilDiv_eq {n d : Nat} (hd : 0 < d) :
    ceilDiv n d = n / d + if n % d = 0 then 0 else 1 := by
  have hsplit := Nat.div_add_mod n d
  have hrest := Nat.mod_lt n hd
  rw [Nat.mul_comm] at hsplit
  apply Nat.le_antisymm
  · rw [ceilDiv_le_iff hd, Nat.add_mul]
    split <;> omega
  · split
    case isTrue => exact Nat.div_le_div_right (by omega)
    case isFalse h =>
      rw [Nat.succ_le_iff, lt_ceilDiv_iff hd]
      omega

/-- Sharing in blocks of the size that a number of blocks needs takes no more blocks. -/
theorem ceilDiv_ceilDiv_le {n d : Nat} (hd : 0 < d) (hn : 0 < n) :
    ceilDiv n (ceilDiv n d) ≤ d := by
  have hsize : 0 < ceilDiv n d := (lt_ceilDiv_iff hd).mpr (by omega)
  rw [ceilDiv_le_iff hsize, Nat.mul_comm]
  exact le_ceilDiv_mul hd

/-- The sizes of consecutive blocks of `size` items: whole blocks, and one more for the items that
are left over. -/
def cutSizes (count size : Nat) : List Nat :=
  List.replicate (count / size) size ++ if count % size = 0 then [] else [count % size]

theorem sum_cutSizes (count size : Nat) : (cutSizes count size).sum = count := by
  have hsplit := Nat.div_add_mod' count size
  rw [cutSizes, List.sum_append, List.sum_replicate_nat]
  split
  case isTrue h => rwa [List.sum_nil, ← h]
  case isFalse => rwa [List.sum_singleton]

theorem length_cutSizes {count size : Nat} (hsize : 0 < size) :
    (cutSizes count size).length = ceilDiv count size := by
  rw [cutSizes, List.length_append, List.length_replicate, ceilDiv_eq hsize]
  split <;> rfl

private theorem dropLast_cutSizes (count size : Nat) :
    (cutSizes count size).dropLast = List.replicate ((cutSizes count size).length - 1) size := by
  rw [cutSizes]
  split
  · rw [List.append_nil, List.dropLast_replicate, List.length_replicate]
  · rw [List.dropLast_concat, List.length_append, List.length_replicate]
    rfl

/-- Several blocks are as many as the threads, or as the blocks that could be filled. -/
theorem blockInfo_eq {threads count least : Nat} (hleast : 1 ≤ least)
    (hmany : 1 < (blockInfo threads count least).1) :
    blockInfo threads count least = (min threads (ceilDiv count least),
      ceilDiv count (min threads (ceilDiv count least))) := by
  simp only [blockInfo, Nat.max_eq_left hleast] at hmany ⊢
  split at hmany
  case isTrue hblocks =>
    have hthreads : max threads 1 = threads := by omega
    rw [if_pos hblocks, hthreads]
  case isFalse => cases Nat.lt_irrefl 1 hmany

private theorem one_lt_ceilDiv_ceilDiv {n d : Nat} (hd : 1 < d) (hn : 1 < n) :
    1 < ceilDiv n (ceilDiv n d) := by
  have hpos : 0 < d := Nat.zero_lt_of_lt hd
  have hsize : 0 < ceilDiv n d := (lt_ceilDiv_iff hpos).mpr (by omega)
  have hsmall : ceilDiv n d ≤ n - 1 := by
    rw [ceilDiv_le_iff hpos]
    calc n ≤ (n - 1) * 2 := by omega
      _ ≤ (n - 1) * d := Nat.mul_le_mul_left _ hd
  rw [lt_ceilDiv_iff hsize]
  omega

private theorem forall_dropLast_cutSizes {count size least : Nat}
    (hused : 1 < (cutSizes count size).length) :
    (∀ block ∈ (cutSizes count size).dropLast, least ≤ block) ↔ least ≤ size := by
  rw [dropLast_cutSizes]
  constructor
  · intro h
    exact h size (List.mem_replicate.mpr ⟨by omega, rfl⟩)
  · intro h block hblock
    rwa [(List.mem_replicate.mp hblock).2]

/-- Items that are shared in several blocks are in no more blocks than there are threads, nor than
were counted, and none is left out. All blocks but the last one have the least size where the
threads are fewer than the blocks that could be filled, and where so many blocks would hold fewer
items than there are if each of them lacked one. -/
theorem blockInfo_least_iff {threads count least : Nat} (hleast : 1 ≤ least)
    (hmany : 1 < (blockInfo threads count least).1) :
    let (blocks, size) := blockInfo threads count least
    (cutSizes count size).length ≤ min threads blocks ∧ (cutSizes count size).sum = count ∧
      ((∀ block ∈ (cutSizes count size).dropLast, least ≤ block) ↔
        threads < ceilDiv count least ∨ ceilDiv count least * (least - 1) < count) := by
  have heq := blockInfo_eq hleast hmany
  rw [heq] at hmany ⊢
  dsimp only at hmany ⊢
  generalize hblocks : min threads (ceilDiv count least) = blocks at hmany ⊢
  have hpos : 0 < blocks := Nat.zero_lt_of_lt hmany
  have hlarge : 1 * least < count := (lt_ceilDiv_iff hleast).mp (by omega)
  have hcount : 1 < count := by omega
  have hsize : 0 < ceilDiv count blocks := (lt_ceilDiv_iff hpos).mpr (by omega)
  have hfew := ceilDiv_ceilDiv_le hpos (Nat.zero_lt_of_lt hcount)
  refine ⟨?_, sum_cutSizes _ _, ?_⟩
  · rw [length_cutSizes hsize]
    omega
  · have hused : 1 < (cutSizes count (ceilDiv count blocks)).length := by
      rw [length_cutSizes hsize]
      exact one_lt_ceilDiv_ceilDiv hmany hcount
    have hleast_iff : least ≤ ceilDiv count blocks ↔ blocks * (least - 1) < count := by
      rw [Nat.mul_comm, ← lt_ceilDiv_iff hpos]
      omega
    rw [forall_dropLast_cutSizes hused, hleast_iff]
    rcases Nat.lt_or_ge threads (ceilDiv count least) with hthreads | hthreads
    · -- So many blocks of the least size do not hold everything yet.
      have hwhole : blocks * least < count := by
        rw [← hblocks, Nat.min_eq_left hthreads.le, ← lt_ceilDiv_iff hleast]
        exact hthreads
      have hlack := Nat.mul_le_mul_left blocks (Nat.sub_le least 1)
      exact ⟨fun _ => .inl hthreads, fun _ => hlack.trans_lt hwhole⟩
    · rw [← hblocks, Nat.min_eq_right hthreads, or_iff_right (Nat.not_lt.mpr hthreads)]

/-- Ten items in blocks of four at least: three blocks, of four, four and two. -/
theorem blockInfo_least_iff_ten : blockInfo 8 10 4 = (3, 4) ∧
    (cutSizes 10 4).length ≤ min 8 3 ∧ ∀ block ∈ (cutSizes 10 4).dropLast, 4 ≤ block := by
  obtain ⟨hfew, -, hiff⟩ := @blockInfo_least_iff 8 10 4 (by decide) (by decide)
  exact ⟨by decide, hfew, hiff.mpr (.inr (by decide))⟩

/-- Four items in blocks of three at least: two blocks are counted, and two items are left for
each of them. -/
theorem blockInfo_below_least : blockInfo 2 4 3 = (2, 2) ∧
    ¬ ∀ block ∈ (cutSizes 4 2).dropLast, 3 ≤ block := by
  decide

end Arboretum
