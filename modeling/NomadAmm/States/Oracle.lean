import NomadAmm.Error
import NomadAmm.Lib.RingLog

/-! `states/oracle.rs`: the ring of price observations a pool writes on its swaps.
An index outside the ring panics. The key of the pool and padding are left out. -/

namespace NomadAmm

open Lib.Checked Lib.RingLog Exec

def observationNum : Nat := 100

def observationUpdateDurationDefault : Nat := 15

structure Observation where
  blockTimestamp : Nat
  cumulativeToken0PriceX32 : Nat
  cumulativeToken1PriceX32 : Nat
  deriving DecidableEq, Repr

def Observation.default : Observation := ⟨0, 0, 0⟩

structure ObservationState where
  initialized : Bool
  observationIndex : Nat
  observations : Vector Observation observationNum
  lastUpdateTimestamp : Nat
  deriving DecidableEq

def ObservationState.default : ObservationState :=
  ⟨false, 0, Vector.replicate observationNum Observation.default, 0⟩

def wrappingAdd (a b : Nat) : Nat := (a + b) % 2 ^ 128

/-- An observation at `blockTimestamp` that carries the sums of `last` on. -/
def Observation.carry (last : Observation) (blockTimestamp delta0 delta1 : Nat) : Observation :=
  ⟨blockTimestamp, wrappingAdd last.cumulativeToken0PriceX32 delta0,
    wrappingAdd last.cumulativeToken1PriceX32 delta1⟩

namespace ObservationState

/-- Write one slot of the ring. -/
def write (s : ObservationState) (index : Nat) (o : Observation) : ObservationState :=
  { s with observations := s.observations.setIfInBounds index o }

/-- `update` past its early returns: the window is still open, or a new slot is. -/
def accumulate (s : ObservationState) (lastObservation : Observation)
    (blockTimestamp timeSinceLastUpdate token0PriceX32 token1PriceX32 : Nat) :
    Exec ObservationState := do
  let delta0 ← okOr .mathOverflow (checkedMul 128 token0PriceX32 timeSinceLastUpdate)
  let delta1 ← okOr .mathOverflow (checkedMul 128 token1PriceX32 timeSinceLastUpdate)
  if blockTimestamp - lastObservation.blockTimestamp < observationUpdateDurationDefault then
    -- the timestamp of the open slot stays where it was
    pure { s.write s.observationIndex
        (lastObservation.carry lastObservation.blockTimestamp delta0 delta1) with
      lastUpdateTimestamp := blockTimestamp }
  else
    let nextObservationIndex := forward observationNum s.observationIndex
    pure { s.write nextObservationIndex (lastObservation.carry blockTimestamp delta0 delta1) with
      observationIndex := nextObservationIndex
      lastUpdateTimestamp := blockTimestamp }

def update (s : ObservationState) (blockTimestamp token0PriceX32 token1PriceX32 : Nat) :
    Exec ObservationState := do
  let lastObservation ← unwrap s.observations[s.observationIndex]?
  if s.initialized = false then
    pure { s.write s.observationIndex ⟨blockTimestamp, 0, 0⟩ with
      initialized := true
      lastUpdateTimestamp := blockTimestamp }
  else
    -- legacy accounts have no last update of their own
    let lastUpdateTimestamp :=
      if s.lastUpdateTimestamp = 0 then lastObservation.blockTimestamp else s.lastUpdateTimestamp
    let timeSinceLastUpdate := blockTimestamp - lastUpdateTimestamp
    if timeSinceLastUpdate = 0 ∨ blockTimestamp - lastObservation.blockTimestamp = 0 then
      pure { s with lastUpdateTimestamp }
    else
      accumulate { s with lastUpdateTimestamp } lastObservation blockTimestamp timeSinceLastUpdate
        token0PriceX32 token1PriceX32

end ObservationState

end NomadAmm
