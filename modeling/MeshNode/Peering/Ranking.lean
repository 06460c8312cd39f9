import MeshNode.Peering.Probe

/-!
# Ranking and picking peers

Reachable peers are ranked by latency, those of equal latency in the order they were
probed, and a pick takes distinct positions of a list.
-/

namespace MeshNode.Peering

/-- The reachable candidates, fastest first, at most `n` of them. -/
def rankReachable (results : List ProbeResult) (n : Nat) : List Url :=
  let online := results.filter (·.reachable)
  ((online.mergeSort fun a b => decide (a.latency ≤ b.latency)).take n).map (·.candidate)

/-- Distinct positions of a list, as many as asked for. -/
structure Sample (length count : Nat) where
  positions : List (Fin length)
  nodup : positions.Nodup
  length_positions : positions.length = count

/-- A way to draw samples. -/
def Sampler : Type := (length count : Nat) → count ≤ length → Sample length count

/-- The elements at `n` drawn positions; a list no longer than `n` comes back unchanged. -/
def randomPick {α : Type} (draw : Sampler) (list : List α) (n : Nat) : List α :=
  if h : list.length ≤ n then list
  else (draw list.length n (by omega)).positions.map list.get

/-- The sampler that draws the first positions. -/
def firstPositions : Sampler := fun length count h =>
  { positions := (List.finRange length).take count
    nodup := (List.nodup_finRange length).sublist (List.take_sublist ..)
    length_positions := by
      rw [List.length_take, List.length_finRange]
      exact Nat.min_eq_left h }

end MeshNode.Peering
