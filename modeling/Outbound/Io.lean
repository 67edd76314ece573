import Outbound.Lib.Stream
import Outbound.Netproxy

/-! The reads of a fixed number of bytes that the stream protocols make, with their errors. -/
namespace Outbound.Io

open Lib

structure Fetched where
  data : Bytes
  err : Option Error
  stream : Source UInt8

def readFull (s : Source UInt8) (k : ℕ) : Fetched :=
  let b := Lib.readFull Source.read k k [] s
  ⟨b.1, if b.1.length < k then some (.sentinel (if b.1 = [] then .eof else .unexpectedEOF))
    else none, b.2⟩

def discard (s : Source UInt8) (k : ℕ) : Option Error × Source UInt8 :=
  let b := Lib.readFull Source.read k k [] s
  (if b.1.length < k then some (.sentinel .eof) else none, b.2)

variable {s : Source UInt8} {k : ℕ}

theorem readFull_append {a b : Bytes} (hk : a.length = k)
    (hs : s.rest = a ++ b) : ∃ s', readFull s k = ⟨a, none, s'⟩ ∧ s'.rest = b := by
  obtain ⟨s', hfull, hrest, _⟩ := Source.streams.readFull_append hk hs
  refine ⟨s', ?_, hrest⟩
  simp [readFull, hfull, hk]

theorem readFull_short (hk : s.rest.length < k) :
    ∃ s', readFull s k = ⟨s.rest,
      some (.sentinel (if s.rest = [] then .eof else .unexpectedEOF)), s'⟩ ∧ s'.rest = [] := by
  obtain ⟨s', hfull, hrest, _⟩ := Source.streams.readFull_eq k s
  rw [List.take_of_length_le (Nat.le_of_lt hk)] at hfull
  rw [List.drop_of_length_le (Nat.le_of_lt hk)] at hrest
  refine ⟨s', ?_, hrest⟩
  simp [readFull, hfull, hk]

theorem readFull_nil (hk : 0 < k) (hs : s.rest = []) :
    ∃ s', readFull s k = ⟨[], some (.sentinel .eof), s'⟩ ∧ s'.rest = [] := by
  obtain ⟨s', hread, hrest⟩ := readFull_short (s := s) (k := k) (by rw [hs]; exact hk)
  rw [hs] at hread
  exact ⟨s', hread, hrest⟩

theorem discard_append {a b : Bytes} (hk : a.length = k)
    (hs : s.rest = a ++ b) : ∃ s', discard s k = (none, s') ∧ s'.rest = b := by
  obtain ⟨s', hfull, hrest, _⟩ := Source.streams.readFull_append hk hs
  refine ⟨s', ?_, hrest⟩
  simp [discard, hfull, hk]

end Outbound.Io
