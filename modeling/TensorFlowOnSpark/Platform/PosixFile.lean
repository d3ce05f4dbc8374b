import TensorFlowOnSpark.Framework.Status
import TensorFlowOnSpark.Lib.Bytes

/-!
# Files read at an offset

`PosixRandomAccessFile` of `platform/posix/posix_file_system.cc`.
-/

namespace TensorFlowOnSpark.Platform

open Framework Bytes List

abbrev Bytes := List UInt8

/-- `chunk` is how many bytes, less one, the calls of `pread` are ready to return; calls
that are interrupted, and so repeated, are not counted. -/
structure PosixRandomAccessFile where
  filename : String
  contents : Bytes
  chunk : Nat → Nat

namespace PosixRandomAccessFile

variable (f : PosixRandomAccessFile)

/-- What a call of `pread` returns: nothing at the end of the file only. -/
def pread (call offset n : Nat) : Nat := min (min n (f.contents.length - offset)) (f.chunk call + 1)

/-- The loop of `Read`, in which `dst` is what has been read. -/
def readLoop (call offset n : Nat) (dst : Bytes) : Status × Bytes :=
  if n = 0 then (.ok, dst)
  else if f.pread call offset n = 0 then (Errors.outOfRange "Read less bytes than requested", dst)
  else
    readLoop (call + 1) (offset + f.pread call offset n) (n - f.pread call offset n)
      (dst ++ slice f.contents offset (f.pread call offset n))
termination_by n

/-- `SSIZE_MAX`: no more bytes can be asked for. -/
def ssizeMax : Nat := 2 ^ 63 - 1

def read (offset n : Nat) : Status × Bytes :=
  if ssizeMax < n then (Errors.invalidArgument f.filename, []) else f.readLoop 0 offset n []

variable {f}

theorem slice_split (mem : Bytes) (offset first n : Nat) (h : first ≤ n) :
    slice mem offset first ++ slice mem (offset + first) (n - first) = slice mem offset n := by
  have hTake : n = first + (n - first) := by omega
  conv_rhs => rw [slice, hTake, take_add, drop_drop]
  rfl

theorem readLoop_eq (call offset n : Nat) (dst : Bytes) :
    f.readLoop call offset n dst =
      (if n = 0 ∨ offset + n ≤ f.contents.length then .ok
        else Errors.outOfRange "Read less bytes than requested",
        dst ++ slice f.contents offset n) := by
  induction n using Nat.strong_induction_on generalizing call offset dst with
  | _ n ih =>
    rw [readLoop]
    by_cases hn : n = 0
    · simp [hn, slice]
    · have hLe : f.pread call offset n ≤ n := by simp only [pread]; omega
      rw [if_neg hn]
      by_cases hEnd : f.pread call offset n = 0
      · have hPast : f.contents.length ≤ offset := by simp only [pread] at hEnd; omega
        have hShort : ¬ (n = 0 ∨ offset + n ≤ f.contents.length) := by omega
        rw [if_pos hEnd, if_neg hShort, slice, drop_eq_nil_of_le hPast, take_nil, append_nil]
      · rw [if_neg hEnd, ih _ (by omega), append_assoc, slice_split _ _ _ _ hLe]
        have hSame : (n - f.pread call offset n = 0 ∨
            offset + f.pread call offset n + (n - f.pread call offset n) ≤ f.contents.length) ↔
            (n = 0 ∨ offset + n ≤ f.contents.length) := by
          have hWithin : f.pread call offset n ≤ f.contents.length - offset := by
            simp only [pread]; omega
          omega
        simp only [hSame]

theorem read_eq {offset n : Nat} (h : n ≤ ssizeMax) :
    f.read offset n =
      (if n = 0 ∨ offset + n ≤ f.contents.length then .ok
        else Errors.outOfRange "Read less bytes than requested", slice f.contents offset n) := by
  rw [read, if_neg (Nat.not_lt.mpr h), readLoop_eq, nil_append]

end PosixRandomAccessFile

end TensorFlowOnSpark.Platform
