/-
# Slice requests side by side

A server answers requests side by side, and a request is a sequence of small steps:
synchronise the cache, look up, query the locations, query the edges, keep the result. Steps
of other requests and commits of other connections fall between them in any order.

Each query sees one committed database, and the second never sees an older one than the first.
Nothing holds the two together: a commit between them gives a slice that no database has, and a
commit before the result is kept lets a later request find it. Without such a commit every
answer is the slice of one database that was current while the request ran.

The databases that were current while a call ran are recorded beside it. No step reads them.
-/

import FaultRepair.Proofs.Server.SliceCache
import Mathlib

namespace FaultRepair.Server

open Store List

/-! ## One request, step by step -/

inductive Phase where
  | waiting
  | synchronised
  | missed
  | located (rows : List SliceLocation)
  | computed (s : Slice)
  | answered (answer : Option (Option Slice))
  deriving DecidableEq

namespace Phase

/-- The next step of a request, on the cache and the database as they are by then. -/
def advance (key : SliceKey) (c : SliceCache) (d : Database) : Phase → Phase × SliceCache
  | waiting => (synchronised, c.sync d.version)
  | synchronised =>
    match c.get? key with
    | some (s, c) => (answered (some (some s)), c)
    | none => (missed, c)
  | missed =>
    match d.sliceLocations? key.root key.depth with
    | none => (answered none, c)
    | some [] => (answered (some none), c)
    | some rows => (located rows, c)
  | located rows =>
    match d.sliceEdges? rows with
    | none => (answered none, c)
    | some edges => (computed ⟨key.root, key.depth, rows, edges⟩, c)
  | computed s => (answered (some (some s)), c.add key s)
  | answered a => (answered a, c)

/-- The steps of a request that nothing interrupts are the request. -/
theorem iterate_advance (c : SliceCache) (d : Database) (root requested : Int) :
    (fun at' : Phase × SliceCache => at'.1.advance ⟨root, sliceDepth requested⟩ at'.2 d)^[5]
        (waiting, c) =
      (answered (c.slice? d root requested).1, (c.slice? d root requested).2) := by
  simp only [Function.iterate_succ, Function.iterate_zero, Function.comp_apply, id, advance,
    SliceCache.slice?]
  cases hget : (c.sync d.version).get? ⟨root, sliceDepth requested⟩ with
  | some hit => rfl
  | none => grind

/-- A request that has begun and is not answered. -/
def running : Phase → Bool
  | waiting | answered _ => false
  | _ => true

/-- A request that has asked for the locations and is not answered. -/
def querying : Phase → Bool
  | located _ | computed _ => true
  | _ => false

end Phase

/-! ## Calls and their windows -/

/-- A request with the databases that were current from its first step to its last, and from
its query for locations on; the newest stands last. -/
structure Call where
  phase : Phase := .waiting
  window : List Database := []
  asked : List Database := []

namespace Call

def step (call : Call) (key : SliceKey) (c : SliceCache) (d : Database) : Call :=
  { phase := (call.phase.advance key c d).1
    window := if call.phase = .waiting then [d] else call.window
    asked := if call.phase = .missed then [d] else call.asked }

/-- A commit, as a call sees it that is under way. -/
def pass (call : Call) (d : Database) : Call :=
  { call with
    window := if call.phase.running then call.window ++ [d] else call.window
    asked := if call.phase.querying then call.asked ++ [d] else call.asked }

theorem pass_answered {call : Call} {a : Option (Option Slice)} (h : call.phase = .answered a)
    (d : Database) : call.pass d = call := by
  cases call
  cases h
  rfl

end Call

/-- A slice whose locations are from one database and whose edges are from another. -/
def combine (d₁ d₂ : Database) (key : SliceKey) : Option (Option Slice) := do
  let rows ← d₁.sliceLocations? key.root key.depth
  if rows.isEmpty then return none
  let edges ← d₂.sliceEdges? rows
  return some ⟨key.root, key.depth, rows, edges⟩

@[simp]
theorem combine_self (d : Database) (key : SliceKey) : combine d d key = sliceAt? d key := rfl

/-- Only a slice can mix two databases: that there is none, or no table, is true of one. -/
theorem combine_eq_of_no_slice {d₁ d₂ : Database} {key : SliceKey}
    (h : ∀ slice, combine d₁ d₂ key ≠ some (some slice)) :
    sliceAt? d₁ key = combine d₁ d₂ key ∨ sliceAt? d₂ key = combine d₁ d₂ key := by
  cases hrows : d₁.sliceLocations? key.root key.depth with
  | none => exact .inl (by simp [sliceAt?, combine, hrows])
  | some rows =>
    cases rows with
    | nil => exact .inl (by simp [sliceAt?, combine, hrows])
    | cons first rest =>
      cases hedges : d₂.sliceEdges? (first :: rest) with
      | none =>
        -- Without a table of edges the other query would have failed as well.
        have htable : d₂.dependencies = none := Option.map_eq_none_iff.mp hedges
        have hlater : d₂.sliceLocations? key.root key.depth = none := by
          simp [Database.sliceLocations?, htable]
        exact .inr (by simp [sliceAt?, combine, hrows, hedges, hlater])
      | some edges =>
        exact absurd (by simp [combine, hrows, hedges])
          (h ⟨key.root, key.depth, first :: rest, edges⟩)

namespace Call

/-- An answer is made of what the call's queries gave: locations of the database that was
current when it asked for them, and edges of one that was current since. -/
def Computed (call : Call) (key : SliceKey) (a : Option (Option Slice)) : Prop :=
  call.asked <:+ call.window ∧
    ∃ d₁ ∈ call.asked.head?, ∃ d₂ ∈ call.asked, combine d₁ d₂ key = a

/-- Nothing was changed from the query for locations to the last step. -/
def Undisturbed (call : Call) : Prop :=
  ∀ d ∈ call.asked, ∀ d' ∈ call.asked, d = d'

variable {call : Call} {key : SliceKey} {a : Option (Option Slice)}

theorem Computed.head?_isSome (h : call.Computed key a) : call.asked.head?.isSome := by
  obtain ⟨-, d₁, hfirst, -⟩ := h
  exact Option.isSome_of_mem hfirst

theorem Computed.sliceAt? (h : call.Computed key a) (hcalm : call.Undisturbed) {d : Database}
    (hd : d ∈ call.asked) : Server.sliceAt? d key = a := by
  obtain ⟨-, d₁, hfirst, d₂, hsecond, rfl⟩ := h
  rw [hcalm d₁ (mem_of_mem_head? hfirst) d hd, hcalm d₂ hsecond d hd, combine_self]

end Call

/-! ## A server and its database -/

/-- A database that is served, with all that was committed so far, and the calls by number. -/
structure System where
  database : Database
  cache : SliceCache
  history : List Database
  calls : Nat → Call

/-- What happens next: another connection commits, or a call takes its next step. -/
inductive Move where
  | commit (w : Write)
  | step (i : Nat)

namespace System

def start (size : Int) (d : Database) : System := ⟨d, .ofSize size, [d], fun _ => {}⟩

/-- One move, where call `i` is for `keys i`. -/
def move (keys : Nat → SliceKey) (s : System) : Move → System
  | .commit w =>
    { s with
      database := s.database.after w
      history := s.history ++ [s.database.after w]
      calls := fun i => (s.calls i).pass (s.database.after w) }
  | .step i =>
    { s with
      cache := ((s.calls i).phase.advance (keys i) s.cache s.database).2
      calls := Function.update s.calls i ((s.calls i).step (keys i) s.cache s.database) }

def run (keys : Nat → SliceKey) (s : System) (moves : List Move) : System :=
  moves.foldl (move keys) s

/-- The databases that were committed, from the first to the current one. -/
structure Ordered (s : System) : Prop where
  follows : s.history.Pairwise Follows
  current : s.history.getLast? = some s.database
  version_le : ∀ v ∈ s.cache.version, v ≤ s.database.version

/-- The cache was synchronised no earlier than a call began. -/
def Begun (s : System) (call : Call) : Prop :=
  call.window <:+ s.history ∧
    ∃ v ∈ s.cache.version, ∃ d ∈ call.window.head?, d.version ≤ v

/-- The answer `a` for `key` was computed by the call `j`. -/
def ComputedBy (s : System) (keys : Nat → SliceKey) (j : Nat) (key : SliceKey)
    (a : Option (Option Slice)) : Prop :=
  keys j = key ∧ (s.calls j).phase = .answered a ∧ (s.calls j).Computed key a

/-- What is known of a call in every phase. -/
def Traced (s : System) (keys : Nat → SliceKey) (i : Nat) : Prop :=
  match (s.calls i).phase with
  | .waiting => True
  | .synchronised | .missed => s.Begun (s.calls i)
  | .located rows =>
    s.Begun (s.calls i) ∧ (s.calls i).asked <:+ (s.calls i).window ∧ rows ≠ [] ∧
      ∃ d ∈ (s.calls i).asked.head?, d.sliceLocations? (keys i).root (keys i).depth = some rows
  | .computed slice => s.Begun (s.calls i) ∧ (s.calls i).Computed (keys i) (some (some slice))
  | .answered a =>
    ∃ j, s.ComputedBy keys j (keys i) a ∧ (j = i ∨ ∃ slice, a = some (some slice)) ∧
      ((s.calls j).Undisturbed → ∃ d ∈ (s.calls i).window, sliceAt? d (keys i) = a)

/-- An entry was computed by a call. If that was undisturbed, the entry is the slice of a
database that is not older than the version of the cache. -/
def Kept (s : System) (keys : Nat → SliceKey) (entry : SliceKey × Slice) : Prop :=
  ∃ j, s.ComputedBy keys j entry.1 (some (some entry.2)) ∧
    ((s.calls j).Undisturbed → ∃ d ∈ s.history, sliceAt? d entry.1 = some (some entry.2) ∧
      ∀ v ∈ s.cache.version, v ≤ d.version)

structure Sound (s : System) (keys : Nat → SliceKey) : Prop extends s.Ordered where
  traced : ∀ i, s.Traced keys i
  kept : ∀ entry ∈ s.cache.entries, s.Kept keys entry

section Preservation

variable {s : System} {keys : Nat → SliceKey} {i j : Nat} {a : Option (Option Slice)}

variable {l : List Database} {call : Call} {d : Database}

theorem Ordered.current_mem (h : s.Ordered) (hl : l <:+ s.history) (hne : l ≠ []) :
    s.database ∈ l := by
  obtain ⟨before, hbefore⟩ := hl
  have hlast := h.current
  rw [← hbefore, getLast?_append_of_ne_nil _ hne] at hlast
  exact mem_of_getLast? hlast

theorem Ordered.current_mem_asked (h : s.Ordered) (hbegun : s.Begun call)
    (hsuffix : call.asked <:+ call.window) (hasked : call.asked.head?.isSome) :
    s.database ∈ call.asked :=
  h.current_mem (hsuffix.trans hbegun.1) (isSome_head?.mp hasked)

/-- A committed database that is not older than the cache was current since a call began. -/
theorem Ordered.mem_window (h : s.Ordered) (hbegun : s.Begun call) (hd : d ∈ s.history)
    (hversion : ∀ v ∈ s.cache.version, v ≤ d.version) : d ∈ call.window := by
  obtain ⟨⟨before, hbefore⟩, v, hv, first, hfirst, hle⟩ := hbegun
  have hmem := mem_of_mem_head? hfirst
  rw [← hbefore] at hd
  rcases mem_append.mp hd with hold | hnew
  · have hfollows : Follows d first := by
      have hpairs := h.follows
      rw [← hbefore] at hpairs
      exact (pairwise_append.mp hpairs).2.2 d hold first hmem
    -- An older one has the version of the first, so it is the first.
    have hsame : first.version = d.version :=
      Nat.le_antisymm (hle.trans (hversion v hv)) hfollows.version_le
    exact hfollows.eq_of_version hsame ▸ hmem
  · exact hnew

/-- The current database was committed after all others. -/
theorem Ordered.follows_current (h : s.Ordered) (hd : d ∈ s.history) : Follows d s.database := by
  obtain ⟨before, hbefore⟩ := getLast?_eq_some_iff.mp h.current
  have hpairs := h.follows
  grind [Follows.refl]

/-! ### Commits -/

theorem Ordered.commit (h : s.Ordered) (w : Write) : (s.move keys (.commit w)).Ordered where
  follows := by
    refine pairwise_append.mpr ⟨h.follows, pairwise_singleton _ _, ?_⟩
    intro d hd d' hd'
    rw [mem_singleton.mp hd']
    exact (h.follows_current hd).trans (s.database.follows_after w)
  current := getLast?_concat
  version_le v hv := (h.version_le v hv).trans (s.database.follows_after w).version_le

theorem pass_querying (h : call.phase.querying) (d : Database) :
    call.pass d = { call with window := call.window ++ [d], asked := call.asked ++ [d] } := by
  have hrun : call.phase.running := by
    cases hphase : call.phase <;> simp_all [Phase.running, Phase.querying]
  simp [Call.pass, h, hrun]

theorem Begun.commit (h : s.Begun call) (hrun : call.phase.running) (w : Write) :
    (s.move keys (.commit w)).Begun (call.pass (s.database.after w)) := by
  obtain ⟨hsuffix, v, hv, d, hd, hle⟩ := h
  simp only [Begun, Call.pass, hrun, if_true]
  exact ⟨suffix_append_self_iff.mpr hsuffix, v, hv, d, mem_head?_append_of_mem_head? hd, hle⟩

theorem ComputedBy.of_calls_eq {s' : System} {key : SliceKey} (h : s.ComputedBy keys j key a)
    (hcall : s'.calls j = s.calls j) : s'.ComputedBy keys j key a := by
  rw [ComputedBy, hcall]
  exact h

theorem Traced.commit (h : s.Traced keys i) (w : Write) :
    (s.move keys (.commit w)).Traced keys i := by
  have hphase : ((s.move keys (.commit w)).calls i).phase = (s.calls i).phase := rfl
  unfold Traced at h ⊢
  rw [hphase]
  cases hcase : (s.calls i).phase <;> rw [hcase] at h
  case waiting => trivial
  case synchronised | missed => exact h.commit (by rw [hcase]; rfl) w
  case located rows =>
    obtain ⟨hbegun, hsuffix, hne, d, hd, hrows⟩ := h
    have hpass : (s.move keys (.commit w)).calls i = _ :=
      pass_querying (by rw [hcase]; rfl) (s.database.after w)
    refine ⟨hbegun.commit (by rw [hcase]; rfl) w, ?_, hne, d, ?_, hrows⟩
    · rw [hpass]
      exact suffix_append_self_iff.mpr hsuffix
    · rw [hpass]
      exact mem_head?_append_of_mem_head? hd
  case computed slice =>
    obtain ⟨hbegun, hsuffix, d₁, hd₁, d₂, hd₂, hslice⟩ := h
    have hpass : (s.move keys (.commit w)).calls i = _ :=
      pass_querying (by rw [hcase]; rfl) (s.database.after w)
    refine ⟨hbegun.commit (by rw [hcase]; rfl) w, ?_⟩
    rw [hpass]
    exact ⟨suffix_append_self_iff.mpr hsuffix, d₁, mem_head?_append_of_mem_head? hd₁, d₂,
      mem_append_left _ hd₂, hslice⟩
  case answered a =>
    obtain ⟨j, hj, hwhose, hwindow⟩ := h
    have hcall : (s.move keys (.commit w)).calls j = s.calls j := Call.pass_answered hj.2.1 _
    have hself : (s.move keys (.commit w)).calls i = s.calls i := Call.pass_answered hcase _
    refine ⟨j, hj.of_calls_eq hcall, hwhose, ?_⟩
    rw [hcall, hself]
    exact hwindow

theorem Kept.commit {entry : SliceKey × Slice} (h : s.Kept keys entry) (w : Write) :
    (s.move keys (.commit w)).Kept keys entry := by
  obtain ⟨j, hj, hfresh⟩ := h
  have hcall : (s.move keys (.commit w)).calls j = s.calls j := Call.pass_answered hj.2.1 _
  refine ⟨j, hj.of_calls_eq hcall, ?_⟩
  intro hcalm
  rw [hcall] at hcalm
  obtain ⟨d, hd, hslice, hversion⟩ := hfresh hcalm
  exact ⟨d, mem_append_left _ hd, hslice, hversion⟩

/-- A commit changes no cache and no call that is answered, and whoever is under way sees it. -/
theorem Sound.commit (h : s.Sound keys) (w : Write) : (s.move keys (.commit w)).Sound keys where
  toOrdered := h.toOrdered.commit w
  traced i := (h.traced i).commit w
  kept entry hentry := (h.kept entry hentry).commit w

/-! ### Steps -/

/-- A call has taken a step and left this cache. -/
def put (s : System) (i : Nat) (call : Call) (c : SliceCache) : System :=
  { s with cache := c, calls := Function.update s.calls i call }

section Put

variable {c : SliceCache}

@[simp]
theorem put_calls_self : (s.put i call c).calls i = call := Function.update_self ..

theorem put_calls_other {k : Nat} (hk : k ≠ i) : (s.put i call c).calls k = s.calls k :=
  Function.update_of_ne hk ..

variable (hopen : ∀ a, (s.calls i).phase ≠ .answered a)

include hopen

theorem put_calls_answered {k : Nat} (hk : (s.calls k).phase = .answered a) :
    (s.put i call c).calls k = s.calls k := by
  apply put_calls_other
  rintro rfl
  exact hopen a hk

theorem ComputedBy.put {key : SliceKey} (h : s.ComputedBy keys j key a) :
    (s.put i call c).ComputedBy keys j key a :=
  h.of_calls_eq (put_calls_answered hopen h.2.1)

/-- An entry stays accounted for under the same version. -/
theorem Kept.put {entry : SliceKey × Slice} (h : s.Kept keys entry)
    (hversion : c.version = s.cache.version) : (s.put i call c).Kept keys entry := by
  obtain ⟨j, hj, hfresh⟩ := h
  refine ⟨j, hj.put hopen, ?_⟩
  intro hcalm
  rw [put_calls_answered hopen hj.2.1] at hcalm
  obtain ⟨d, hd, hslice, hle⟩ := hfresh hcalm
  refine ⟨d, hd, hslice, ?_⟩
  intro v hv
  exact hle v (hversion ▸ hv)

theorem Traced.put {k : Nat} (h : s.Traced keys k) (hk : k ≠ i)
    (hgrows : ∀ v ∈ s.cache.version, ∃ v' ∈ c.version, v ≤ v') :
    (s.put i call c).Traced keys k := by
  have hbegun : s.Begun (s.calls k) → (s.put i call c).Begun (s.calls k) := by
    rintro ⟨hsuffix, v, hv, d, hd, hle⟩
    obtain ⟨v', hv', hle'⟩ := hgrows v hv
    exact ⟨hsuffix, v', hv', d, hd, hle.trans hle'⟩
  unfold Traced at h ⊢
  rw [put_calls_other hk]
  cases hphase : (s.calls k).phase <;> rw [hphase] at h
  case waiting => trivial
  case synchronised | missed => exact hbegun h
  case located | computed => exact ⟨hbegun h.1, h.2⟩
  case answered a =>
    obtain ⟨j, hj, hwhose, hwindow⟩ := h
    refine ⟨j, hj.put hopen, hwhose, ?_⟩
    rw [put_calls_answered hopen hj.2.1]
    exact hwindow

theorem Sound.put (h : s.Sound keys)
    (hgrows : ∀ v ∈ s.cache.version, ∃ v' ∈ c.version, v ≤ v')
    (hle : ∀ v ∈ c.version, v ≤ s.database.version)
    (hcall : (s.put i call c).Traced keys i)
    (hkept : ∀ entry ∈ c.entries, (s.put i call c).Kept keys entry) :
    (s.put i call c).Sound keys where
  follows := h.follows
  current := h.current
  version_le := hle
  traced k := by
    by_cases hk : k = i
    · exact hk ▸ hcall
    · exact (h.traced k).put hopen hk hgrows
  kept := hkept

/-- A step that leaves the cache as it is, or only in another order. -/
theorem Sound.put_same (h : s.Sound keys) (hversion : c.version = s.cache.version)
    (hentries : ∀ entry ∈ c.entries, entry ∈ s.cache.entries)
    (hcall : (s.put i call c).Traced keys i) : (s.put i call c).Sound keys := by
  refine h.put hopen ?_ ?_ hcall ?_
  · intro v hv
    exact ⟨v, hversion ▸ hv, Nat.le_refl v⟩
  · intro v hv
    exact h.version_le v (hversion ▸ hv)
  · intro entry hentry
    exact (h.kept entry (hentries entry hentry)).put hopen hversion

end Put

section Step

theorem move_step (i : Nat) : s.move keys (.step i) =
    s.put i ((s.calls i).step (keys i) s.cache s.database)
      ((s.calls i).phase.advance (keys i) s.cache s.database).2 := rfl

theorem open_of_phase {phase : Phase} (h : (s.calls i).phase = phase)
    (hphase : ∀ a, phase ≠ .answered a) : ∀ a, (s.calls i).phase ≠ .answered a :=
  h ▸ hphase

/-- Entries survive the synchronisation only under the version they had. -/
theorem Sound.step_waiting (h : s.Sound keys) (hphase : (s.calls i).phase = .waiting) :
    (s.move keys (.step i)).Sound keys := by
  have hopen := open_of_phase hphase (by simp)
  rw [move_step]
  simp only [Call.step, hphase, Phase.advance]
  refine h.put hopen ?_ ?_ ?_ ?_
  · intro v hv
    exact ⟨_, SliceCache.sync_version .., h.version_le v hv⟩
  · simp
  · unfold Traced
    rw [put_calls_self]
    obtain ⟨before, hbefore⟩ := getLast?_eq_some_iff.mp h.current
    exact ⟨⟨before, hbefore.symm⟩, _, SliceCache.sync_version .., s.database, rfl, Nat.le_refl _⟩
  · intro entry hentry
    rw [SliceCache.sync] at hentry ⊢
    split at hentry
    · rename_i hsame
      rw [if_pos hsame]
      exact (h.kept entry hentry).put hopen rfl
    · cases hentry

/-- What is found was computed by some call; if that was undisturbed, the slice is from a
database that is not older than the cache, and that was current since this call began. -/
theorem Sound.step_synchronised (h : s.Sound keys)
    (hphase : (s.calls i).phase = .synchronised) : (s.move keys (.step i)).Sound keys := by
  have hopen := open_of_phase hphase (by simp)
  have htraced := h.traced i
  unfold Traced at htraced
  rw [hphase] at htraced
  rw [move_step]
  cases hget : s.cache.get? (keys i) with
  | none =>
    simp only [Call.step, hphase, Phase.advance, hget]
    refine h.put_same hopen rfl (fun _ hentry => hentry) ?_
    unfold Traced
    rw [put_calls_self]
    exact htraced
  | some hit =>
    obtain ⟨slice, c⟩ := hit
    obtain ⟨found, hfound, hequal⟩ := Option.map_eq_some_iff.mp hget
    cases hequal
    obtain ⟨before, after, hsplit, -⟩ := lookup_eq_some_iff.mp hfound
    have hmem : (keys i, slice) ∈ s.cache.entries := by simp [hsplit]
    simp only [Call.step, hphase, Phase.advance, hget]
    refine h.put_same hopen rfl ?_ ?_
    · grind [SliceCache.mem_of_mem_erase]
    · obtain ⟨j, hj, hfresh⟩ := h.kept _ hmem
      unfold Traced
      rw [put_calls_self]
      refine ⟨j, hj.put hopen, .inr ⟨slice, rfl⟩, ?_⟩
      rw [put_calls_answered hopen hj.2.1]
      intro hcalm
      obtain ⟨d, hd, hslice, hversion⟩ := hfresh hcalm
      exact ⟨d, h.toOrdered.mem_window htraced hd hversion, hslice⟩

/-- The call answers itself with what its queries gave. -/
theorem Sound.traced_answered (h : s.Sound keys) {c : SliceCache}
    (hanswer : call.phase = .answered a) (hbegun : s.Begun call)
    (hcomputed : call.Computed (keys i) a) : (s.put i call c).Traced keys i := by
  unfold Traced
  rw [put_calls_self, hanswer]
  refine ⟨i, ⟨rfl, ?_, ?_⟩, .inl rfl, ?_⟩
  · rw [put_calls_self]
    exact hanswer
  · rw [put_calls_self]
    exact hcomputed
  · rw [put_calls_self]
    intro hcalm
    have hcurrent := h.toOrdered.current_mem_asked hbegun hcomputed.1 hcomputed.head?_isSome
    exact ⟨s.database, hcomputed.1.mem hcurrent, hcomputed.sliceAt? hcalm hcurrent⟩

/-- The query for locations sees the current database. -/
theorem Sound.step_missed (h : s.Sound keys) (hphase : (s.calls i).phase = .missed) :
    (s.move keys (.step i)).Sound keys := by
  have hopen := open_of_phase hphase (by simp)
  have hbegun := h.traced i
  unfold Traced at hbegun
  rw [hphase] at hbegun
  have hsuffix : [s.database] <:+ (s.calls i).window := by
    obtain ⟨v, -, d, hd, -⟩ := hbegun.2
    have hne : (s.calls i).window ≠ [] := ne_nil_of_mem (mem_of_mem_head? hd)
    have hlast : (s.calls i).window.getLast? = some s.database := by
      obtain ⟨before, hbefore⟩ := hbegun.1
      rw [← h.current, ← hbefore, getLast?_append_of_ne_nil _ hne]
    obtain ⟨before, hbefore⟩ := getLast?_eq_some_iff.mp hlast
    exact ⟨before, hbefore.symm⟩
  rw [move_step]
  cases hrows : s.database.sliceLocations? (keys i).root (keys i).depth with
  | none =>
    simp only [Call.step, hphase, Phase.advance, hrows]
    refine h.put_same hopen rfl (fun _ hentry => hentry) (h.traced_answered rfl hbegun ?_)
    exact ⟨hsuffix, s.database, rfl, s.database, mem_singleton_self _, by
      simp [sliceAt?, hrows]⟩
  | some rows =>
    cases rows with
    | nil =>
      simp only [Call.step, hphase, Phase.advance, hrows]
      refine h.put_same hopen rfl (fun _ hentry => hentry) (h.traced_answered rfl hbegun ?_)
      exact ⟨hsuffix, s.database, rfl, s.database, mem_singleton_self _, by
        simp [sliceAt?, hrows]⟩
    | cons first rest =>
      simp only [Call.step, hphase, Phase.advance, hrows]
      refine h.put_same hopen rfl (fun _ hentry => hentry) ?_
      unfold Traced
      rw [put_calls_self]
      exact ⟨hbegun, hsuffix, cons_ne_nil _ _, s.database, rfl, hrows⟩

/-- The query for edges sees the current database, whatever was committed since the other. -/
theorem Sound.step_located (h : s.Sound keys) {rows : List SliceLocation}
    (hphase : (s.calls i).phase = .located rows) : (s.move keys (.step i)).Sound keys := by
  have hopen := open_of_phase hphase (by simp)
  have htraced := h.traced i
  unfold Traced at htraced
  rw [hphase] at htraced
  obtain ⟨hbegun, hsuffix, hne, d, hd, hrows⟩ := htraced
  have hcurrent := h.toOrdered.current_mem_asked hbegun hsuffix (Option.isSome_of_mem hd)
  rw [move_step]
  cases hedges : s.database.sliceEdges? rows with
  | none =>
    simp only [Call.step, hphase, Phase.advance, hedges]
    refine h.put_same hopen rfl (fun _ hentry => hentry) (h.traced_answered rfl hbegun ?_)
    exact ⟨hsuffix, d, hd, s.database, hcurrent, by simp [combine, hrows, hne, hedges]⟩
  | some edges =>
    simp only [Call.step, hphase, Phase.advance, hedges]
    refine h.put_same hopen rfl (fun _ hentry => hentry) ?_
    unfold Traced
    rw [put_calls_self]
    exact ⟨hbegun, hsuffix, d, hd, s.database, hcurrent, by simp [combine, hrows, hne, hedges]⟩

/-- A result that is kept is from the current database if its call was undisturbed. -/
theorem Sound.step_computed (h : s.Sound keys) {slice : Slice}
    (hphase : (s.calls i).phase = .computed slice) : (s.move keys (.step i)).Sound keys := by
  have hopen := open_of_phase hphase (by simp)
  have htraced := h.traced i
  unfold Traced at htraced
  rw [hphase] at htraced
  obtain ⟨hbegun, hcomputed⟩ := htraced
  rw [move_step]
  simp only [Call.step, hphase, Phase.advance]
  refine h.put hopen (fun v hv => ⟨v, hv, Nat.le_refl v⟩) h.version_le
    (h.traced_answered rfl hbegun hcomputed) ?_
  intro entry hentry
  rcases mem_cons.mp (mem_of_mem_take hentry) with rfl | hrest
  · refine ⟨i, ⟨rfl, ?_, ?_⟩, ?_⟩
    · rw [put_calls_self]
    · rw [put_calls_self]
      exact hcomputed
    · rw [put_calls_self]
      intro hcalm
      have hcurrent := h.toOrdered.current_mem_asked hbegun hcomputed.1 hcomputed.head?_isSome
      exact ⟨s.database, mem_of_getLast? h.current, hcomputed.sliceAt? hcalm hcurrent,
        h.version_le⟩
  · exact (h.kept entry (SliceCache.mem_of_mem_erase hrest)).put hopen rfl

theorem move_step_answered (hphase : (s.calls i).phase = .answered a) :
    s.move keys (.step i) = s := by
  have hcall : (s.calls i).step (keys i) s.cache s.database = s.calls i := by
    cases hvalue : s.calls i
    rw [hvalue] at hphase
    cases hphase
    rfl
  rw [move_step, hcall, hphase, put, Function.update_eq_self]
  rfl

theorem Sound.step (h : s.Sound keys) (i : Nat) : (s.move keys (.step i)).Sound keys := by
  cases hphase : (s.calls i).phase with
  | waiting => exact h.step_waiting hphase
  | synchronised => exact h.step_synchronised hphase
  | missed => exact h.step_missed hphase
  | located rows => exact h.step_located hphase
  | computed slice => exact h.step_computed hphase
  | answered a =>
    rw [move_step_answered hphase]
    exact h

end Step

theorem Sound.start (size : Int) (d : Database) (keys : Nat → SliceKey) :
    (start size d).Sound keys where
  follows := pairwise_singleton _ _
  current := rfl
  version_le v hv := by cases hv
  traced i := trivial
  kept entry hentry := by cases hentry

theorem Sound.run (h : s.Sound keys) (moves : List Move) : (s.run keys moves).Sound keys := by
  induction moves generalizing s with
  | nil => exact h
  | cons first rest ih =>
    cases first with
    | commit w => exact ih (h.commit w)
    | step i => exact ih (h.step i)

end Preservation

end System

/-! ## What is answered -/

/-- The key that a request for a root and a depth stands for. -/
def keyOf (request : Int × Int) : SliceKey := ⟨request.1, sliceDepth request.2⟩

/-- The calls after an interleaving, where call `i` is for `requests i`. -/
def callsAfter (size : Int) (d : Database) (requests : Nat → Int × Int) (moves : List Move) :
    Nat → Call :=
  ((System.start size d).run (keyOf ∘ requests) moves).calls

/-- The answer `a` of call `i` is what the two queries of one call `j` gave. That is the call
itself, or the one that had put a slice into the cache. Unless a slice is answered and `j` was
disturbed, the answer is the slice of a single database that was current while `i` ran. -/
def OfTwoReads (calls : Nat → Call) (requests : Nat → Int × Int) (i : Nat)
    (a : Option (Option Slice)) : Prop :=
  ∃ j, keyOf (requests j) = keyOf (requests i) ∧ (calls j).phase = .answered a ∧
    (j = i ∨ ∃ slice, a = some (some slice)) ∧
    (calls j).Computed (keyOf (requests i)) a ∧
    ((calls j).Undisturbed ∨ (∀ slice, a ≠ some (some slice)) →
      ∃ d ∈ (calls i).window, d.slice? (requests i).1 (requests i).2 = a)

/-- **Every answer is made of two reads.**  However many requests run side by side, and however
their steps and the commits of other connections are mixed, an answer joins locations of one
database with edges of one that is not older, both current while one call ran; and it is the
slice of one database that was current while the request ran, unless a commit fell between that
call's first query and its last step. -/
theorem answers_of_two_reads (size : Int) (d : Database) (requests : Nat → Int × Int)
    (moves : List Move) {i : Nat} {a : Option (Option Slice)}
    (hanswer : (callsAfter size d requests moves i).phase = .answered a) :
    OfTwoReads (callsAfter size d requests moves) requests i a := by
  have htraced := ((System.Sound.start size d (keyOf ∘ requests)).run moves).traced i
  rw [callsAfter] at hanswer
  unfold System.Traced at htraced
  rw [hanswer] at htraced
  obtain ⟨j, ⟨hkey, hsame, hcomputed⟩, hwhose, hwindow⟩ := htraced
  refine ⟨j, hkey, hsame, hwhose, hcomputed, ?_⟩
  rintro (hcalm | hnone)
  · exact hwindow hcalm
  · have hself : j = i := by
      rcases hwhose with hself | ⟨slice, hslice⟩
      · exact hself
      · exact absurd hslice (hnone slice)
    subst hself
    obtain ⟨hsuffix, d₁, hfirst, d₂, hsecond, rfl⟩ := hcomputed
    rcases combine_eq_of_no_slice hnone with hslice | hslice
    · exact ⟨d₁, hsuffix.mem (mem_of_mem_head? hfirst), hslice⟩
    · exact ⟨d₂, hsuffix.mem hsecond, hslice⟩

/-- A location that depends on another one. -/
def sharedDatabase : Database where
  locations := some ⟨[⟨1, ⟨"a", "/a.go", 1, 1⟩⟩, ⟨2, ⟨"b", "/a.go", 2, 1⟩⟩], 2⟩
  dependencies := some ⟨[⟨1, 1, 2⟩], 1⟩
  sources := some []

def sharedSlice (edges : List Dependency) : Option (Option Slice) :=
  some (some ⟨1, 20, [⟨⟨1, ⟨"a", "/a.go", 1, 1⟩⟩, 0⟩, ⟨⟨2, ⟨"b", "/a.go", 2, 1⟩⟩, 1⟩], edges⟩)

def sharedCalls (moves : List Move) : Nat → Call :=
  callsAfter 1 sharedDatabase (fun _ => (1, 0)) moves

/-- A request has synchronised when an edge is committed, and then finds what another one had
computed before it. -/
theorem overtaken_of_two_reads :
    let moves := [.step 0, .step 0, .step 0, .step 0, .step 0, .step 1, .commit (.insertEdge 2 1),
      .step 1]
    (sharedCalls moves 1).phase = .answered (sharedSlice [⟨1, 1, 2⟩]) ∧
      OfTwoReads (sharedCalls moves) (fun _ => (1, 0)) 1 (sharedSlice [⟨1, 1, 2⟩]) := by
  intro moves
  have hanswer : (sharedCalls moves 1).phase = .answered (sharedSlice [⟨1, 1, 2⟩]) := by
    unfold moves
    cbv
  exact ⟨hanswer, answers_of_two_reads 1 sharedDatabase (fun _ => (1, 0)) moves hanswer⟩

/-- The store is emptied between the two queries of a request. -/
def tornMoves : List Move := [.step 0, .step 0, .step 0, .commit .reset, .step 0, .step 0]

/-- The first request has its slice when an edge is committed and the second one drops what is
kept; then the first keeps its slice, and the third, which began after that, finds it. -/
def staleMoves : List Move :=
  [.step 0, .step 0, .step 0, .step 0, .commit (.insertEdge 2 1), .step 1, .step 0,
    .step 2, .step 2]

/-- A commit between the queries gives a slice that no database has, and one before the result
is kept gives a later request a slice that no database had while it ran. -/
theorem interleaved_slices_not_atomic :
    ((sharedCalls tornMoves 0).phase = .answered (sharedSlice []) ∧
        ∀ d ∈ (sharedCalls tornMoves 0).window, d.slice? 1 0 ≠ sharedSlice []) ∧
      (sharedCalls staleMoves 2).phase = .answered (sharedSlice [⟨1, 1, 2⟩]) ∧
        ∀ d ∈ (sharedCalls staleMoves 2).window, d.slice? 1 0 ≠ sharedSlice [⟨1, 1, 2⟩] := by
  have htorn : (sharedCalls tornMoves 0).window =
      [sharedDatabase, sharedDatabase.after .reset] := by
    cbv
  have hstale : (sharedCalls staleMoves 2).window = [sharedDatabase.after (.insertEdge 2 1)] := by
    cbv
  have hbefore : sharedDatabase.slice? 1 0 = sharedSlice [⟨1, 1, 2⟩] := by cbv
  have hempty : (sharedDatabase.after .reset).slice? 1 0 = some none := by cbv
  have hgrown : (sharedDatabase.after (.insertEdge 2 1)).slice? 1 0 =
      sharedSlice [⟨1, 1, 2⟩, ⟨2, 2, 1⟩] := by cbv
  refine ⟨⟨by cbv, ?_⟩, by cbv, ?_⟩
  · rw [htorn]
    simp [hbefore, hempty, sharedSlice]
  · rw [hstale]
    simp [hgrown, sharedSlice]

end FaultRepair.Server
