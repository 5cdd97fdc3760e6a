/-
# The slice cache is invisible

A server keeps slices and drops them when the version of the database has changed. Other
connections write in between, and what they commit is seen by the server only through that
version. Every request is nevertheless answered as if the slice had been computed for it.

An entry is fresh while it is what would be computed now. One request keeps all entries
fresh, and it answers right if they were fresh or are dropped first; a write may make entries
stale, but then it has committed a change, and the next request reads another version. How
versions are numbered is left open: it is only assumed that a version differs from the one
read before it if a change was committed in between.
-/

import FaultRepair.Server.SliceCache
import FaultRepair.Proofs.Store.Writing
import Mathlib.Data.List.Chain

namespace FaultRepair.Server

open Store

/-! ## Fresh entries -/

/-- The slice that a key stands for, computed without a cache. -/
def sliceAt? (d : Database) (key : SliceKey) : Option (Option Slice) := do
  let rows ← d.sliceLocations? key.root key.depth
  if rows.isEmpty then return none
  let edges ← d.sliceEdges? rows
  return some ⟨key.root, key.depth, rows, edges⟩

/-- Requests for several depths stand for one key. -/
theorem slice?_eq_sliceAt? (d : Database) (root requested : Int) :
    d.slice? root requested = sliceAt? d ⟨root, sliceDepth requested⟩ := rfl

namespace SliceCache

/-- Every entry is what would be computed now. -/
def Fresh (c : SliceCache) (d : Database) : Prop :=
  ∀ entry ∈ c.entries, sliceAt? d entry.1 = some (some entry.2)

variable {c c' : SliceCache} {d : Database} {key : SliceKey} {s : Slice}

theorem fresh_ofSize (size : Int) (d : Database) : (ofSize size).Fresh d := by
  intro entry hentry
  cases hentry

theorem fresh_sync {version : Nat} (hc : c.version = some version → c.Fresh d) :
    (c.sync version).Fresh d := by
  rw [sync]
  split
  · rename_i hsame
    exact hc (beq_iff_eq.mp hsame)
  · intro entry hentry
    cases hentry

@[simp]
theorem sync_version (c : SliceCache) (version : Nat) :
    (c.sync version).version = some version := by
  rw [sync]
  split
  · rename_i hsame
    exact beq_iff_eq.mp hsame
  · rfl

theorem mem_of_mem_erase {entry : SliceKey × Slice} (hentry : entry ∈ c.erase key) :
    entry ∈ c.entries :=
  List.mem_of_mem_filter hentry

/-- A hit is right, and using an entry changes only the order of the entries. -/
theorem Fresh.get? (hc : c.Fresh d) (hget : c.get? key = some (s, c')) :
    sliceAt? d key = some (some s) ∧ c'.Fresh d ∧ c'.version = c.version := by
  obtain ⟨found, hfound, hequal⟩ := Option.map_eq_some_iff.mp hget
  cases hequal
  obtain ⟨before, after, hsplit, -⟩ := List.lookup_eq_some_iff.mp hfound
  have hkey : sliceAt? d key = some (some s) := hc (key, s) (by simp [hsplit])
  refine ⟨hkey, ?_, rfl⟩
  intro entry hentry
  rcases List.mem_cons.mp hentry with rfl | hrest
  · exact hkey
  · exact hc entry (mem_of_mem_erase hrest)

theorem Fresh.add (hc : c.Fresh d) (hkey : sliceAt? d key = some (some s)) :
    (c.add key s).Fresh d := by
  intro entry hentry
  rcases List.mem_cons.mp (List.mem_of_mem_take hentry) with rfl | hrest
  · exact hkey
  · exact hc entry (mem_of_mem_erase hrest)

/-- One request is answered as without a cache, and leaves entries that are fresh under the
version it read. -/
theorem slice?_spec (hc : c.version = some d.version → c.Fresh d) (root requested : Int) :
    (c.slice? d root requested).1 = d.slice? root requested ∧
      (c.slice? d root requested).2.Fresh d ∧
      (c.slice? d root requested).2.version = some d.version := by
  have hfresh := fresh_sync hc
  rw [slice?_eq_sliceAt?, slice?]
  cases hget : (c.sync d.version).get? ⟨root, sliceDepth requested⟩ with
  | some hit =>
    obtain ⟨hkey, hafter, hversion⟩ := hfresh.get? hget
    exact ⟨hkey.symm, hafter, hversion.trans (sync_version c _)⟩
  | none =>
    simp only [sliceAt?]
    cases hrows : d.sliceLocations? root (sliceDepth requested) with
    | none => exact ⟨rfl, hfresh, sync_version c _⟩
    | some rows =>
      cases rows with
      | nil => exact ⟨rfl, hfresh, sync_version c _⟩
      | cons first rest =>
        cases hedges : d.sliceEdges? (first :: rest) with
        | none => simp [hedges, hfresh]
        | some edges =>
          have hkey : sliceAt? d ⟨root, sliceDepth requested⟩ =
              some (some ⟨root, sliceDepth requested, first :: rest, edges⟩) := by
            simp [sliceAt?, hrows, hedges]
          simp only [hedges]
          exact ⟨by simp [hedges], hfresh.add hkey, sync_version c _⟩

end SliceCache

/-- A server that has just started answers as if it had no cache. -/
theorem ofSize_slice? (size : Int) (d : Database) (root requested : Int) :
    ((SliceCache.ofSize size).slice? d root requested).1 = d.slice? root requested :=
  (SliceCache.slice?_spec (fun _ => SliceCache.fresh_ofSize size d) root requested).1

/-! ## Writes and requests in any order -/

/-- What happens to a database that is served. -/
inductive Event where
  /-- Another connection writes. -/
  | write (w : Write)
  /-- A slice is asked for, and `reading` is what the server reads as the version. -/
  | request (root requested : Int) (reading : Nat)

def answers (c : SliceCache) (d : Database) : List Event → List (Option (Option Slice))
  | [] => []
  | .write w :: rest => answers c (d.after w) rest
  | .request root requested reading :: rest =>
    let answer := c.slice? { d with version := reading } root requested
    answer.1 :: answers answer.2 d rest

def plainAnswers (d : Database) : List Event → List (Option (Option Slice))
  | [] => []
  | .write w :: rest => plainAnswers (d.after w) rest
  | .request root requested _ :: rest => d.slice? root requested :: plainAnswers d rest

/-- For every request, how many changes were committed before it and which version was read. -/
def readings (d : Database) : List Event → List (Nat × Nat)
  | [] => []
  | .write w :: rest => readings (d.after w) rest
  | .request _ _ reading :: rest => (d.version, reading) :: readings d rest

/-- From one request to the next, the version that is read changes if a change was committed. -/
def Noticed (observed : List (Nat × Nat)) : Prop :=
  observed.IsChain fun earlier later => earlier.1 ≠ later.1 → earlier.2 ≠ later.2

instance (observed : List (Nat × Nat)) : Decidable (Noticed observed) :=
  inferInstanceAs (Decidable (List.IsChain _ observed))

/-- A cache between two requests: `seen` is what the last one observed, if there was one, and
entries are fresh unless a change was committed since. -/
structure Serving (c : SliceCache) (seen : Option (Nat × Nat)) (d : Database) : Prop where
  version_eq : c.version = seen.map (·.2)
  fresh : ∀ last ∈ seen, last.1 ≤ d.version ∧ (d.version = last.1 → c.Fresh d)

namespace Serving

variable {c : SliceCache} {seen : Option (Nat × Nat)} {d : Database}

theorem start (size : Int) (d : Database) : Serving (.ofSize size) none d where
  version_eq := rfl
  fresh last hlast := by cases hlast

/-- A write commits a change, or entries are as fresh as before. -/
theorem write (hc : Serving c seen d) (w : Write) : Serving c seen (d.after w) where
  version_eq := hc.version_eq
  fresh last hlast := by
    obtain ⟨hle, hfresh⟩ := hc.fresh last hlast
    have hfollows := d.follows_after w
    refine ⟨hle.trans hfollows.version_le, fun hsame => ?_⟩
    have hversion : (d.after w).version = d.version :=
      Nat.le_antisymm (hsame ▸ hle) hfollows.version_le
    rw [hfollows.eq_of_version hversion]
    exact hfresh (hversion.symm.trans hsame)

/-- A request that notices changes is answered from the database as it is. -/
theorem request (hc : Serving c seen d) {reading : Nat}
    (hnotice : ∀ last ∈ seen, last.1 ≠ d.version → last.2 ≠ reading) (root requested : Int) :
    (c.slice? { d with version := reading } root requested).1 = d.slice? root requested ∧
      Serving (c.slice? { d with version := reading } root requested).2
        (some (d.version, reading)) d := by
  have hold : c.version = some reading → c.Fresh { d with version := reading } := by
    intro hversion
    rw [hc.version_eq] at hversion
    obtain ⟨last, hlast, hread⟩ := Option.map_eq_some_iff.mp hversion
    have hsame : last.1 = d.version := by
      by_contra hchanged
      exact hnotice last hlast hchanged hread
    -- Slices do not depend on the version, so they are as fresh as in the database itself.
    exact (hc.fresh last hlast).2 hsame.symm
  obtain ⟨hanswer, hfresh, hversion⟩ :=
    SliceCache.slice?_spec (d := { d with version := reading }) hold root requested
  refine ⟨hanswer, ⟨hversion, ?_⟩⟩
  intro last hlast
  cases hlast
  exact ⟨Nat.le_refl _, fun _ => hfresh⟩

/-- A whole history is answered from the database as it is at every request. -/
theorem answers_eq (hc : Serving c seen d) {history : List Event}
    (hnotice : Noticed (seen.toList ++ readings d history)) :
    answers c d history = plainAnswers d history := by
  induction history generalizing c seen d with
  | nil => rfl
  | cons event rest ih =>
    cases event with
    | write w => exact ih (hc.write w) hnotice
    | request root requested reading =>
      have hnow : ∀ last ∈ seen, last.1 ≠ d.version → last.2 ≠ reading := by
        rintro last rfl
        exact (List.isChain_cons_cons.mp hnotice).1
      have hlater : Noticed ((d.version, reading) :: readings d rest) :=
        hnotice.right_of_append
      obtain ⟨hanswer, hserving⟩ := hc.request hnow root requested
      rw [answers, plainAnswers, hanswer]
      exact congrArg _ (ih hserving hlater)

end Serving

/-- **The slice cache is invisible.**  Whatever its size, and however writes of other
connections and requests are mixed, every request is answered from the database as it is at
that moment. -/
theorem cached_answers_eq_plain (size : Int) (d : Database) (history : List Event)
    (hnotice : Noticed (readings d history)) :
    answers (.ofSize size) d history = plainAnswers d history :=
  (Serving.start size d).answers_eq hnotice

/-- A location that depends on itself and on another one. -/
def servedDatabase : Database where
  locations := some ⟨[⟨1, ⟨"a", "/a.go", 1, 1⟩⟩, ⟨2, ⟨"b", "/a.go", 2, 1⟩⟩], 2⟩
  dependencies := some ⟨[⟨1, 1, 1⟩], 1⟩
  sources := some []

/-- Two depths that stand for one key, a root that pushes the other out, a new edge, an edge
that changes nothing in the slice, and a reset. The versions are no count of changes, and the
third differs from the second although nothing was committed. -/
def servedHistory : List Event :=
  [.request 1 0 7, .request 1 50 7, .request 2 3 9, .write (.insertEdge 1 2), .request 1 20 4,
    .write (.recordSource ⟨"/a.go", "0", []⟩), .request 1 20 5, .write .reset, .request 1 20 6]

theorem served_answers_eq_plain :
    Noticed (readings servedDatabase servedHistory) ∧
      answers (.ofSize 1) servedDatabase servedHistory =
        plainAnswers servedDatabase servedHistory := by
  have hnotice : Noticed (readings servedDatabase servedHistory) := by decide
  exact ⟨hnotice, cached_answers_eq_plain 1 servedDatabase servedHistory hnotice⟩

end FaultRepair.Server
