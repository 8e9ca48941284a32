import Topc.Types

/-! # Function effects

What a function's summary says of its formals and its result. -/

namespace Topc

inductive FormalMode
  | copy
  | own
  | dependsOnInstantiation
deriving DecidableEq, Repr

inductive ReturnOrigin
  | unknown
  | pureCopy
  | freshOwn
  | fromFormal
  | borrowFromFormal
deriving DecidableEq, Repr

/-- What a generic body needs of an actual, decided at each call. -/
inductive CopyRequirement
  | none
  | referent
  | self
  | both
deriving DecidableEq, Repr

/-- The reasons for a requirement, as bits of a mask. -/
inductive RequirementReason
  | movesOutOfBorrow
  | overwritesThroughBorrow
  | lendsToMoveOut
  | usedAfterPassedOn
  | notDisposed
deriving DecidableEq, Repr

def RequirementReason.bit : RequirementReason → Nat
  | .movesOutOfBorrow => 1
  | .overwritesThroughBorrow => 2
  | .lendsToMoveOut => 4
  | .usedAfterPassedOn => 8
  | .notDisposed => 16

structure FormalRequirement where
  kind : CopyRequirement := .none
  reasons : Nat := 0
deriving DecidableEq, Repr

/-- The part of a summary that says where the result of a call comes from. -/
structure ReturnSummary where
  returnOrigin : ReturnOrigin
  returnFormalIndex : Option Nat
deriving DecidableEq, Repr

end Topc
