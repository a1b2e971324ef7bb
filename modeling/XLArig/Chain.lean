import Mathlib.Data.List.Basic

/-!
# XLArig.Chain

A chain of blocks: bytes are collected until a block is full, and a full block goes into the
chaining value.

`absorb` takes one byte after the other, so that it does not matter how a message is cut;
`blocks` takes whole blocks, which is what the textbook says; `absorb_eq_blocks` says that it is the
same.
-/

namespace XLArig

/-- What a block does to a chaining value, and how long a block is. -/
structure Chain (S α : Type*) where
  compress : S → List α → S
  size : Nat
  size_pos : 0 < size

namespace Chain

variable {S α : Type*} (C : Chain S α)

/-- One byte more; the last one of a block completes it. -/
def step (x : S × List α) (b : α) : S × List α :=
  if x.2.length + 1 = C.size then (C.compress x.1 (x.2 ++ [b]), []) else (x.1, x.2 ++ [b])

def absorb (x : S × List α) (bytes : List α) : S × List α := bytes.foldl C.step x

/-- `k` whole blocks. -/
def blocks : (k : Nat) → S → List α → S
  | 0, s, _ => s
  | k + 1, s, bytes => blocks k (C.compress s (bytes.take C.size)) (bytes.drop C.size)

variable {C} {s : S} {k : Nat} {x : S × List α} {tail bytes bytes' : List α}

@[simp] theorem absorb_nil : C.absorb x [] = x := rfl

theorem absorb_cons {b : α} : C.absorb x (b :: bytes) = C.absorb (C.step x b) bytes := rfl

/-- It does not matter how a message is cut. -/
theorem absorb_append : C.absorb x (bytes ++ bytes') = C.absorb (C.absorb x bytes) bytes' :=
  List.foldl_append

/-- Bytes that do not fill the block. -/
theorem absorb_of_lt (h : tail.length + bytes.length < C.size) :
    C.absorb (s, tail) bytes = (s, tail ++ bytes) := by
  induction bytes generalizing tail with
  | nil => rw [absorb_nil, List.append_nil]
  | cons b bytes ih =>
      rw [List.length_cons] at h
      have hstep : C.step (s, tail) b = (s, tail ++ [b]) := if_neg (by simp only; omega)
      have hlen : (tail ++ [b]).length + bytes.length < C.size := by
        rw [List.length_append, List.length_singleton]
        omega
      rw [absorb_cons, hstep, ih hlen, List.append_assoc, List.singleton_append]

/-- Bytes that just fill the block. -/
theorem absorb_of_eq (hne : bytes ≠ []) (h : tail.length + bytes.length = C.size) :
    C.absorb (s, tail) bytes = (C.compress s (tail ++ bytes), []) := by
  obtain ⟨init, b, rfl⟩ := List.eq_nil_or_concat' bytes |>.resolve_left hne
  rw [List.length_append, List.length_singleton] at h
  have hstep : C.step (s, tail ++ init) b = (C.compress s (tail ++ init ++ [b]), []) :=
    if_pos (by simp only [List.length_append]; omega)
  have hinit : C.absorb (s, tail) init = (s, tail ++ init) := absorb_of_lt (by omega)
  rw [absorb_append, hinit, absorb_cons, absorb_nil, hstep, List.append_assoc]

/-- One whole block. -/
theorem absorb_block (h : bytes.length = C.size) : C.absorb (s, []) bytes = (C.compress s bytes, []) := by
  have hne : bytes ≠ [] := List.ne_nil_of_length_pos (h ▸ C.size_pos)
  rw [absorb_of_eq hne (by rw [List.length_nil, Nat.zero_add, h]), List.nil_append]

/-- What is not in a whole block is kept. -/
theorem length_absorb (h : x.2.length < C.size) :
    (C.absorb x bytes).2.length = (x.2.length + bytes.length) % C.size := by
  induction bytes generalizing x with
  | nil => exact (Nat.mod_eq_of_lt h).symm
  | cons b bytes ih =>
      have hstep : (C.step x b).2.length = (x.2.length + 1) % C.size := by
        unfold step
        split_ifs with hlast
        · rw [hlast, Nat.mod_self, List.length_nil]
        · rw [List.length_append, List.length_singleton, Nat.mod_eq_of_lt (by omega)]
      have hlt : (C.step x b).2.length < C.size := by
        rw [hstep]
        exact Nat.mod_lt _ C.size_pos
      rw [absorb_cons, ih hlt, hstep, Nat.mod_add_mod, List.length_cons, Nat.add_assoc, Nat.add_comm 1]

/-- Whole blocks, and what is left. -/
theorem absorb_eq_blocks (h : k * C.size ≤ bytes.length) :
    C.absorb (s, []) bytes = C.absorb (C.blocks k s bytes, []) (bytes.drop (k * C.size)) := by
  induction k generalizing s bytes with
  | zero => rw [blocks, Nat.zero_mul, List.drop_zero]
  | succ k ih =>
      have hk : k * C.size + C.size ≤ bytes.length := by rwa [← Nat.succ_mul]
      have htake : (bytes.take C.size).length = C.size := by
        rw [List.length_take]
        omega
      have hrest : k * C.size ≤ (bytes.drop C.size).length := by
        rw [List.length_drop]
        omega
      calc C.absorb (s, []) bytes
          = C.absorb (C.absorb (s, []) (bytes.take C.size)) (bytes.drop C.size) := by
            rw [← absorb_append, List.take_append_drop]
        _ = C.absorb (C.compress s (bytes.take C.size), []) (bytes.drop C.size) := by
            rw [absorb_block htake]
        _ = _ := by rw [ih hrest, List.drop_drop, blocks, Nat.succ_mul, Nat.add_comm C.size]

/-- A message of whole blocks leaves nothing behind. -/
theorem absorb_whole (h : C.size ∣ bytes.length) :
    C.absorb (s, []) bytes = (C.blocks (bytes.length / C.size) s bytes, []) := by
  have hlen : bytes.length / C.size * C.size = bytes.length := Nat.div_mul_cancel h
  rw [absorb_eq_blocks (Nat.le_of_eq hlen), hlen, List.drop_length, absorb_nil]

end Chain

end XLArig
