import Mathlib.Data.List.Basic
import Mathlib.Data.Nat.Notation

/-!
A source that is read in pieces: a read takes some of what has arrived, never more than it asks
for, or meets an interruption or a failure, or the end. What arrives before the end or the first
failure does not depend on the sizes of the pieces. Nothing in this module refers to a particular
program.
-/
namespace ClantoDesk.ReadPieces

variable {B : Type}

inductive Piece (B : Type) where
  | bytes (first : B) (more : List B)
  | interrupted
  | failed

inductive Answer (B : Type) where
  | ok (data : List B)
  | interrupted
  | failed

/-- A read of at most `limit` bytes, and what is left of the source. -/
def read (limit : ℕ) : List (Piece B) → Answer B × List (Piece B)
  | [] => (.ok [], [])
  | .interrupted :: rest => (.interrupted, rest)
  | .failed :: rest => (.failed, rest)
  | .bytes first more :: rest =>
    match (first :: more).drop limit with
    | [] => (.ok (first :: more), rest)
    | next :: left => (.ok ((first :: more).take limit), .bytes next left :: rest)

def arrived : List (Piece B) → List B
  | [] => []
  | .bytes first more :: rest => first :: more ++ arrived rest
  | .interrupted :: rest => arrived rest
  | .failed :: _ => []

def weight : List (Piece B) → ℕ
  | [] => 0
  | .bytes _ more :: rest => more.length + 1 + weight rest
  | .interrupted :: rest => 1 + weight rest
  | .failed :: rest => 1 + weight rest

variable (limit : ℕ) (source rest : List (Piece B))

theorem arrived_of_end (h : read limit source = (.ok [], rest)) (hlimit : 0 < limit) :
    arrived source = [] := by
  rcases source with _ | ⟨piece, source⟩
  · rfl
  · cases piece with
    | interrupted => simp [read] at h
    | failed => simp [read] at h
    | bytes first more =>
      rw [read] at h
      obtain ⟨limit, rfl⟩ := Nat.exists_eq_succ_of_ne_zero (Nat.ne_of_gt hlimit)
      split at h
      · simp at h
      · simp at h

theorem read_ok (data : List B) (h : read limit source = (.ok data, rest)) (hdata : data ≠ []) :
    data.length ≤ limit ∧ arrived source = data ++ arrived rest ∧ weight rest < weight source := by
  rcases source with _ | ⟨piece, source⟩
  · simp only [read, Prod.mk.injEq, Answer.ok.injEq] at h
    exact absurd h.1.symm hdata
  · cases piece with
    | interrupted => simp [read] at h
    | failed => simp [read] at h
    | bytes first more =>
      rw [read] at h
      have hcut := List.take_append_drop limit (first :: more)
      have hlength := congrArg List.length hcut
      rw [List.length_append, List.length_cons] at hlength
      have htake := List.length_take_le limit (first :: more)
      split at h
      case h_1 hdrop =>
        obtain ⟨hread, rfl⟩ := Prod.mk.inj h
        obtain rfl := Answer.ok.inj hread
        rw [hdrop, List.append_nil] at hcut
        refine ⟨by rwa [hcut] at htake, rfl, ?_⟩
        simp [weight]
      case h_2 next left hdrop =>
        obtain ⟨hread, rfl⟩ := Prod.mk.inj h
        obtain rfl := Answer.ok.inj hread
        refine ⟨htake, ?_, ?_⟩
        · simp only [arrived]
          rw [← List.append_assoc, ← hdrop, hcut]
        · have hpositive := List.length_pos_iff.mpr hdata
          rw [hdrop, List.length_cons] at hlength
          simp only [weight]
          omega

theorem read_interrupted (h : read limit source = (.interrupted, rest)) :
    arrived source = arrived rest ∧ weight rest < weight source := by
  rcases source with _ | ⟨piece, source⟩
  · simp [read] at h
  · cases piece with
    | interrupted =>
      obtain ⟨-, rfl⟩ := Prod.mk.inj h
      exact ⟨rfl, by simp [weight]⟩
    | failed => simp [read] at h
    | bytes first more =>
      rw [read] at h
      split at h
      · simp at h
      · simp at h

theorem arrived_of_failed (h : read limit source = (.failed, rest)) : arrived source = [] := by
  rcases source with _ | ⟨piece, source⟩
  · rfl
  · cases piece with
    | interrupted => simp [read] at h
    | failed => rfl
    | bytes first more =>
      rw [read] at h
      split at h
      · simp at h
      · simp at h

end ClantoDesk.ReadPieces
