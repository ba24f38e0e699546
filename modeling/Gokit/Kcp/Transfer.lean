/-
# The numbers of the segments

`flush` gives the segments of `snd_queue` their numbers.  This changes nothing else of them: they
are still the segments of the same messages.
-/

import Gokit.Kcp.Sending

namespace Gokit.Kcp

open Gokit.Math

namespace KCP

/-- The numbers that `flush` gives to the segments of `snd_queue`. -/
def number : UInt32 → List Segment → List Segment
  | _, [] => []
  | nxt, seg :: rest => { seg with sn := nxt } :: number (nxt + 1) rest

section Messages

variable {count : Nat} {segs : List Segment}

theorem number_append (nxt : UInt32) (segs others : List Segment) :
    ∃ nxt', number nxt (segs ++ others) = number nxt segs ++ number nxt' others := by
  induction segs generalizing nxt with
  | nil => exact ⟨nxt, rfl⟩
  | cons seg rest ih =>
    obtain ⟨nxt', hnext⟩ := ih (nxt + 1)
    refine ⟨nxt', ?_⟩
    rw [List.cons_append, number, number, hnext, List.cons_append]

theorem content_number (nxt : UInt32) (segs : List Segment) :
    content (number nxt segs) = content segs := by
  induction segs generalizing nxt with
  | nil => rfl
  | cons seg rest ih => exact congrArg (seg.data.bts ++ ·) (ih (nxt + 1))

theorem Numbered.number (h : Numbered count segs) (nxt : UInt32) :
    Numbered count (number nxt segs) := by
  induction count generalizing segs nxt with
  | zero =>
    rw [show segs = [] from h]
    rfl
  | succ count ih =>
    obtain ⟨seg, rest, rfl, hfrg, hrest⟩ := h
    exact ⟨{ seg with sn := nxt }, KCP.number (nxt + 1) rest, rfl, hfrg, ih hrest (nxt + 1)⟩

end Messages

theorem toInt_toInt32 (x : UInt32) : x.toInt32.toInt = (x.toNat : Int).bmod (2 ^ 32) := by
  rw [Int32.toInt, BitVec.toInt_eq_toNat_bmod]
  rfl

end KCP

end Gokit.Kcp
