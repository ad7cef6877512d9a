import Arboretum.Edit

/-!
Cutting the rows of a buffer into contiguous blocks, at most one for each thread. A block is filled
by a function of its first row and its old contents, so blocks do not depend on each other.
-/

namespace Arboretum

def ceilDiv (num den : Nat) : Nat := (num + den - 1) / den

/-- The number of blocks and the size of each when `count` items are shared among threads, with at
least `least` items intended for a block. -/
def blockInfo (threads count least : Nat) : Nat × Nat :=
  let blocks := min (max threads 1) (ceilDiv count (max least 1))
  if 1 < blocks then (blocks, ceilDiv count blocks) else (1, count)

/-- A part of a buffer: its first row, and the entries it covers. -/
structure RowBlock where
  firstRow : Nat
  offset : Nat
  size : Nat
  deriving DecidableEq, Repr

/-- The blocks of a buffer whose rows have `stride` entries. -/
def rowBlocks (threads length stride : Nat) : List RowBlock :=
  if stride = 0 ∨ length = 0 then []
  else
    let (blocks, rows) := blockInfo threads (length / stride) 1
    if blocks ≤ 1 then [⟨0, 0, length⟩]
    else
      let entries := rows * stride
      (List.range (ceilDiv length entries)).map fun i =>
        ⟨i * rows, i * entries, min entries (length - i * entries)⟩

def fillBlock {α : Type} (fill : Nat → Array α → Result (Array α)) (block : RowBlock) :
    Edit (Array α) Unit := do
  let out ← get
  let last := block.offset + block.size
  let entries ← fill block.firstRow (out.extract block.offset last)
  set (out.extract 0 block.offset ++ entries ++ out.extract last out.size)

/-- What a computation finds where it runs: how many threads stand for "all", and what comes of
starting a pool of a number of workers. A pool that does not start says why. -/
structure Machine where
  cores : Nat
  startPool : Nat → Except String Unit

namespace Machine

/-- A machine on which every pool starts. -/
def ofCores (cores : Nat) : Machine := ⟨cores, fun _ => .ok ()⟩

def start (machine : Machine) (threads : Nat) : Result Unit :=
  (machine.startPool threads).mapError .threading

/-- Replace the entries of every block, one after the other. More than one block needs a pool of
workers, which is started before the first. -/
def fillRowBlocks {α : Type} (machine : Machine) (threads stride : Nat)
    (fill : Nat → Array α → Result (Array α)) : Edit (Array α) Unit := do
  let out ← get
  let blocks := rowBlocks threads out.size stride
  if 1 < blocks.length then machine.start threads
  blocks.forM (fillBlock fill)

end Machine

/-- Replace the entries of every block where every pool starts. -/
def fillRowBlocks {α : Type} (threads stride : Nat) (fill : Nat → Array α → Result (Array α)) :
    Edit (Array α) Unit :=
  (Machine.ofCores threads).fillRowBlocks threads stride fill

end Arboretum
