import Mathlib.Data.List.Basic

/-! The errors of a dial that the rings and the QUIC clients tell apart. -/
namespace Outbound.Errors

inductive Sentinel where
  | errStreamExhausted
  | errClientClosed
  | errOperationHold
  | contextCanceled
  | contextDeadlineExceeded
deriving DecidableEq

def Sentinel.text : Sentinel → String
  | .errStreamExhausted => "too many open streams"
  | .errClientClosed => "client closed"
  | .errOperationHold => "hold on"
  | .contextCanceled => "context canceled"
  | .contextDeadlineExceeded => "context deadline exceeded"

/-- An error: one of the values above, one with a text of its own, or one around another. -/
inductive Error where
  | sentinel (s : Sentinel)
  | errorf (text : String)
  | wrap (text : String) (cause : Error)
deriving DecidableEq

def Error.text : Error → String
  | sentinel s => s.text
  | errorf text => text
  | wrap text _ => text

def Error.is : Error → Sentinel → Bool
  | sentinel s, target => s == target
  | errorf _, _ => false
  | wrap _ cause, target => cause.is target

/-- The characters `sub` stand somewhere in the text. -/
def contains (sub : List Char) : List Char → Bool
  | [] => sub.isEmpty
  | c :: text => sub.isPrefixOf (c :: text) || contains sub text

/-- No more streams: the sentinel itself, or any error whose text says so. -/
def isStreamExhausted (err : Error) : Bool :=
  err == .sentinel .errStreamExhausted ||
    contains "too many open streams".toList err.text.toList

end Outbound.Errors
