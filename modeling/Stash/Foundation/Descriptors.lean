import Mathlib.Data.List.Basic
import Mathlib.Data.List.Nodup
import Stash.Foundation.Custody

/-! Descriptors of a process that passes connections from place to place. The kernel gives the
number of a closed descriptor to a later connection, so a close that comes too late or twice hits
another one. -/
namespace Stash.Foundation.Descriptors
open Custody

/-- A connection, numbered in the order of `accept`, with the descriptor that it got. -/
structure Connection where
  number : Nat
  fd : Int
  deriving DecidableEq, Repr

/-- The connection behind each open descriptor. For every call of `close` there is the connection
that was meant beside the one that was behind the descriptor. -/
structure Table where
  accepted : List Connection
  opened : Int → Option Nat
  closed : List (Connection × Option Nat)

namespace Table

def empty : Table := ⟨[], fun _ => none, []⟩

/-- What the next `accept` returns. -/
def next (t : Table) (fd : Int) : Connection := ⟨t.accepted.length, fd⟩

def accept (t : Table) (fd : Int) : Table :=
  { t with
    accepted := t.accepted ++ [t.next fd]
    opened := Function.update t.opened fd (some t.accepted.length) }

/-- `close(fd)`, meant for a connection. -/
def close (t : Table) (conn : Connection) (fd : Int) : Table :=
  { t with
    opened := Function.update t.opened fd none
    closed := t.closed ++ [(conn, t.opened fd)] }

variable {π : Type*}

/-- A connection is in a place of the process, or closed. -/
def Has (t : Table) (carries : π → Connection → Prop) : Option π → Connection → Prop
  | some place, conn => carries place conn
  | none, conn => conn ∈ t.closed.map Prod.fst

/-- Every connection is in one place of the process, where its descriptor is open, or has been
closed, once and by its own descriptor. -/
structure Sound (t : Table) (carries : π → Connection → Prop) : Prop where
  kept : Kept (fun conn => conn ∈ t.accepted) (t.Has carries)
  numbers : ∀ conn ∈ t.accepted, conn.number < t.accepted.length
  live : ∀ place conn, carries place conn → 0 ≤ conn.fd ∧ t.opened conn.fd = some conn.number
  met : ∀ e ∈ t.closed, e.2 = some e.1.number
  once : (t.closed.map Prod.fst).Nodup

variable {t : Table} {carries carries' : π → Connection → Prop}

theorem sound_empty (h : ∀ place conn, ¬ carries place conn) : Sound empty carries where
  kept := by
    refine ⟨fun conn hconn => by simp [empty] at hconn, ?_, ?_⟩
    · rintro (_ | place) place' conn hplace _
      · simp [Has, empty] at hplace
      · exact absurd hplace (h place conn)
    · rintro (_ | place) conn hplace
      · simp [Has, empty] at hplace
      · exact absurd hplace (h place conn)
  numbers := by simp [empty]
  live place conn hplace := absurd hplace (h place conn)
  met := by simp [empty]
  once := List.nodup_nil

theorem Sound.congr (h : Sound t carries) (hsame : ∀ place conn, carries' place conn ↔ carries place conn) :
    Sound t carries' where
  kept := h.kept.congr fun place conn => by
    cases place with
    | some place => exact hsame place conn
    | none => exact Iff.rfl
  numbers := h.numbers
  live place conn hplace := h.live place conn ((hsame place conn).mp hplace)
  met := h.met
  once := h.once

/-- Connections in two places are two, and so are their descriptors. -/
theorem Sound.apart (h : Sound t carries) {source place : π} {conn other : Connection} (hsource : carries source conn)
    (hother : carries place other) (hplace : place ≠ source) : other.fd ≠ conn.fd := by
  intro hfd
  have hnumber : some other.number = some conn.number :=
    (h.live place other hother).2.symm.trans ((congrArg t.opened hfd).trans (h.live source conn hsource).2)
  obtain rfl : other = conn := by
    obtain ⟨n, fd⟩ := other
    obtain ⟨n', fd'⟩ := conn
    obtain rfl : fd = fd' := hfd
    obtain rfl : n = n' := Option.some.inj hnumber
    rfl
  exact hplace (Option.some.inj (h.kept.single (some place) (some source) other hother hsource))

/-- The descriptor of a new connection is one that is open nowhere. -/
theorem Sound.accept (h : Sound t carries) {fd : Int} (target : π) (hfd : 0 ≤ fd) (hfree : t.opened fd = none)
    (hplaced : ∀ place conn, carries' place conn ↔ (conn = t.next fd ∧ place = target) ∨ carries place conn) :
    Sound (t.accept fd) carries' where
  kept := by
    have hnew : t.next fd ∉ t.accepted := fun hmem => Nat.lt_irrefl _ (h.numbers _ hmem)
    refine h.kept.issue (some target) hnew (fun conn => ?_) fun place conn => ?_
    · simp [Table.accept, or_comm]
    · cases place with
      | some place => simpa [Has] using hplaced place conn
      | none => simp [Has, Table.accept]
  numbers conn hconn := by
    rcases List.mem_append.mp hconn with hold | hnew
    · simpa [Table.accept] using Nat.lt_succ_of_lt (h.numbers conn hold)
    · simp [List.mem_singleton.mp hnew, next, Table.accept]
  live place conn hplace := by
    rcases (hplaced place conn).mp hplace with ⟨rfl, _⟩ | hold
    · exact ⟨hfd, Function.update_self ..⟩
    · obtain ⟨hpos, hopen⟩ := h.live place conn hold
      refine ⟨hpos, ?_⟩
      have hne : conn.fd ≠ fd := by
        intro heq
        rw [heq, hfree] at hopen
        cases hopen
      exact (Function.update_of_ne hne _ _).trans hopen
  met := h.met
  once := h.once

/-- A connection is handed from one place to another. -/
theorem Sound.move (h : Sound t carries) (source target : π) (conn : Connection) (hsource : carries source conn)
    (hleft : ∀ other, ¬ carries' source other) (htarget : ∀ other, carries' target other ↔ other = conn ∨ carries target other)
    (hothers : ∀ place other, place ≠ source → place ≠ target → (carries' place other ↔ carries place other))
    (hone : ∀ other, carries source other → other = conn) : Sound t carries' where
  kept := by
    refine h.kept.move (some source) (some target) hsource (fun other => ?_) htarget fun place other hs ht => ?_
    · exact iff_of_false (hleft other) fun hother => hother.1 (hone other hother.2)
    · cases place with
      | some place => exact hothers place other (fun heq => hs (congrArg some heq)) fun heq => ht (congrArg some heq)
      | none => exact Iff.rfl
  numbers := h.numbers
  live place other hplace := by
    by_cases hs : place = source
    · subst hs
      exact absurd hplace (hleft other)
    · by_cases ht : place = target
      · subst ht
        rcases (htarget other).mp hplace with rfl | hold
        · exact h.live source other hsource
        · exact h.live place other hold
      · exact h.live place other ((hothers place other hs ht).mp hplace)
  met := h.met
  once := h.once

/-- The connection of a place is closed by its descriptor. -/
theorem Sound.close (h : Sound t carries) (source : π) {conn : Connection} (hsource : carries source conn) (hleft : ∀ other, ¬ carries' source other)
    (hothers : ∀ place other, place ≠ source → (carries' place other ↔ carries place other))
    (hone : ∀ other, carries source other → other = conn) : Sound (t.close conn conn.fd) carries' where
  kept := by
    refine h.kept.move (some source) none hsource (fun other => ?_) (fun other => ?_)
      fun place other hs ht => ?_
    · exact iff_of_false (hleft other) fun hother => hother.1 (hone other hother.2)
    · simp [Has, Table.close, or_comm]
    · cases place with
      | some place => exact hothers place other fun heq => hs (congrArg some heq)
      | none => exact absurd rfl ht
  numbers := h.numbers
  live place other hplace := by
    have hs : place ≠ source := by
      rintro rfl
      exact hleft other hplace
    have hold := (hothers place other hs).mp hplace
    obtain ⟨hpos, hopen⟩ := h.live place other hold
    exact ⟨hpos, (Function.update_of_ne (h.apart hsource hold hs) _ _).trans hopen⟩
  met e he := by
    rcases List.mem_append.mp he with hold | hnew
    · exact h.met e hold
    · obtain rfl := List.mem_singleton.mp hnew
      exact (h.live source conn hsource).2
  once := by
    have hnot : conn ∉ t.closed.map Prod.fst := fun hclosed =>
      Option.some_ne_none _ (h.kept.single (some source) none conn hsource hclosed)
    rw [Table.close, List.map_append]
    refine List.nodup_append.mpr ⟨h.once, List.nodup_singleton _, fun a ha b hb heq => hnot ?_⟩
    obtain rfl : b = conn := List.mem_singleton.mp hb
    rwa [← heq]

/-- The places get other names. -/
theorem Sound.rename (h : Sound t carries) {back : π → π} (hinjective : Function.Injective back)
    (hforth : ∀ place conn, carries place conn → ∃ place', carries' place' conn)
    (hback : ∀ place conn, carries' place conn → carries (back place) conn) : Sound t carries' where
  kept := by
    refine h.kept.rename (Option.map back) (Option.map_injective hinjective) (fun place conn hplace => ?_)
      fun place conn hplace => ?_
    · cases place with
      | some place =>
        obtain ⟨place', hplace'⟩ := hforth place conn hplace
        exact ⟨some place', hplace'⟩
      | none => exact ⟨none, hplace⟩
    · cases place with
      | some place => exact hback place conn hplace
      | none => exact hplace
  numbers := h.numbers
  live place conn hplace := h.live (back place) conn (hback place conn hplace)
  met := h.met
  once := h.once

end Table

end Stash.Foundation.Descriptors
