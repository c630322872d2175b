import DrExec.Execution.Spawn
import DrExec.Lib.Descriptors
import DrExec.Lib.Loop
import Mathlib.Order.Interval.Finset.Nat

/-! # Descriptor staging

The descriptor step of `_dr_exec_setup` in `execution/spawn.py` on the descriptor table that the
bootstrap process inherits. Every source of the map is copied above the targets, the sources are
closed, and the copies are placed on their targets; `dup` takes whatever number is free, so a source
may sit on a target. The status descriptor is not staged: it keeps its number, and its number may be
a target. -/

namespace DrExec.Execution.Staging

open DrExec.Execution.Spawn DrExec.Lib

/-- What a descriptor refers to: one of the two ends of a pipe, or another file. -/
inductive OpenFile
  | readEnd (pipe : ℕ)
  | writeEnd (pipe : ℕ)
  | other (file : ℕ)
  deriving DecidableEq, Repr

def OpenFile.pipe : OpenFile → Option ℕ
  | .readEnd pipe => some pipe
  | .writeEnd pipe => some pipe
  | .other _ => none

abbrev Table := DescriptorTable OpenFile

def payloadStdinDescriptor : ℕ := 0
def payloadStdoutDescriptor : ℕ := 1
def payloadStderrDescriptor : ℕ := 2
def payloadProtocolDescriptor : ℕ := 3

def highestTargetDescriptor : ℕ := payloadProtocolDescriptor

/-- The numbers of the descriptors that `launch_bootstrap` passes on. -/
structure ChildEnds where
  stdinRead : ℕ
  stdoutWrite : ℕ
  stderrWrite : ℕ
  protocolWrite : Option ℕ := none
  statusWrite : ℕ
  deriving DecidableEq, Repr

/-- The `descriptor_map` of `_run_spawned`: sources with their targets. -/
def ChildEnds.descriptorMap (ends : ChildEnds) : List (ℕ × ℕ) :=
  [(ends.stdinRead, payloadStdinDescriptor), (ends.stdoutWrite, payloadStdoutDescriptor),
    (ends.stderrWrite, payloadStderrDescriptor)] ++
  (ends.protocolWrite.map fun source => (source, payloadProtocolDescriptor)).toList

/-- The `pass_fds` of `launch_bootstrap`. -/
def ChildEnds.passed (ends : ChildEnds) : List ℕ :=
  ends.descriptorMap.map Prod.fst ++ [ends.statusWrite]

/-! ### The setup -/

/-- A call fails and leaves the table as it is. -/
def attempt {β : Type} (t : Table) (call : Except DescriptorError β) :
    Except (DescriptorError × Table) β :=
  call.mapError fun error => (error, t)

/-- Each further copy takes one of the free numbers up to the highest target, or leaves them. -/
theorem dup_decreases {t t' : Table} {held m : ℕ} (hheld : held ≤ highestTargetDescriptor)
    (h : t.dup held = .ok (m, t')) :
    t'.free (Finset.range (highestTargetDescriptor + 1)) +
        (if m ≤ highestTargetDescriptor then 1 else 0) <
      t.free (Finset.range (highestTargetDescriptor + 1)) +
        (if held ≤ highestTargetDescriptor then 1 else 0) := by
  obtain ⟨d, -, -, hfree, rfl⟩ := DescriptorTable.dup_eq_ok h
  rw [if_pos hheld]
  split
  · rename_i hm
    have hmem : m ∈ Finset.range (highestTargetDescriptor + 1) := by
      rw [Finset.mem_range]
      omega
    have := t.free_set_of_mem hmem hfree ⟨d.file, false⟩
    omega
  · rename_i hm
    have hmem : m ∉ Finset.range (highestTargetDescriptor + 1) := by
      rw [Finset.mem_range]
      omega
    rw [t.free_set_of_notMem hmem]
    omega

/-- `while held <= _DR_EXEC_HIGHEST_TARGET_DESCRIPTOR: held = dup(held)` -/
def lifting : Loop (ℕ × Table) (Except (DescriptorError × Table) (ℕ × Table)) where
  body s :=
    if s.1 ≤ highestTargetDescriptor then
      match s.2.dup s.1 with
      | .error error => .inl (.error (error, s.2))
      | .ok next => .inr next
    else .inl (.ok s)
  variant s := s.2.free (Finset.range (highestTargetDescriptor + 1)) +
    if s.1 ≤ highestTargetDescriptor then 1 else 0
  decreases s next h := by
    split at h
    · rename_i hheld
      split at h
      · cases h
      · rename_i hdup
        cases h
        exact dup_decreases hheld hdup
    · cases h

/-- The copy of a source that is held above the targets. -/
def hold (t : Table) (source : ℕ) : Except (DescriptorError × Table) (ℕ × Table) :=
  (attempt t (t.dup source)).bind lifting.run

/-- The first loop: `staged`, and the table with the copies. -/
def stage (t : Table) : List (ℕ × ℕ) → Except (DescriptorError × Table) (List (ℕ × ℕ) × Table)
  | [] => .ok ([], t)
  | (source, target) :: map =>
    (hold t source).bind fun held =>
      (stage held.2 map).bind fun rest => .ok ((held.1, target) :: rest.1, rest.2)

/-- The second loop: every source is closed. -/
def closeSources (t : Table) : List (ℕ × ℕ) → Except (DescriptorError × Table) Table
  | [] => .ok t
  | (source, _) :: map => (attempt t (t.close source)).bind fun t => closeSources t map

/-- The third loop: every copy is placed on its target and closed. -/
def place (t : Table) : List (ℕ × ℕ) → Except (DescriptorError × Table) Table
  | [] => .ok t
  | (held, target) :: staged =>
    (attempt t (t.dup2 held target)).bind fun placed =>
      (attempt placed (placed.close held)).bind fun t => place t staged

def descriptorStep (t : Table) (map : List (ℕ × ℕ)) : Except (DescriptorError × Table) Table :=
  (stage t map).bind fun staged =>
    (closeSources staged.2 map).bind fun t => place t staged.1

def errno : DescriptorError → ℤ
  | .badDescriptor => 9
  | .tooManyOpen => 24

/-- The `errno` with which the other calls of the setup fail, if they do. -/
structure Calls where
  setsid : Option ℤ := none
  chdir : Option ℤ := none
  execv : Option ℤ := none
  deriving DecidableEq, Repr

/-- How the setup ends, with the descriptors of that moment: in the payload, in `_dr_exec_fail`,
which writes its line to the status number, or in an error that is not caught. -/
inductive SetupEnd
  | executed (t : Table)
  | failed (stage : SetupStage) (errno : ℤ) (t : Table)
  | raised

/-- `_dr_exec_setup` -/
def setup (calls : Calls) (ends : ChildEnds) (t : Table) : SetupEnd :=
  match t.setInheritable ends.statusWrite false with
  | .error _ => .raised
  | .ok t =>
    match calls.setsid, calls.chdir with
    | some errno, _ => .failed .session errno t
    | none, some errno => .failed .chdir errno t
    | none, none =>
      match descriptorStep t ends.descriptorMap with
      | .error (error, t) => .failed .descriptors (errno error) t
      | .ok t =>
        match calls.execv with
        | some errno => .failed .exec errno t
        | none => .executed t

/-! ### Faithful placement -/

/-- What the bootstrap process inherits: the passed descriptors have numbers of their own above the
standard ones and refer, inheritably, to ends of pipes of their own; nothing else that is
inheritable refers to these pipes. -/
structure Inherits (t : Table) (ends : ChildEnds) : Prop where
  distinct : ends.passed.Nodup
  above : ∀ n ∈ ends.passed, 2 < n
  opened : ∀ n ∈ ends.passed, ∃ file pipe, t.entry n = some ⟨file, true⟩ ∧ file.pipe = some pipe
  pipes : ∀ n ∈ ends.passed, ∀ k d e, t.entry n = some d → t.entry k = some e →
    e.inheritable = true → e.file.pipe = d.file.pipe → k = n

/-- The descriptors at `execv`: each target refers to the file of its own source, no other number
that is inherited refers to one of the pipes, and the status descriptor is as it was but for being
closed by the `execv`. -/
structure Placed (t : Table) (ends : ChildEnds) (t' : Table) : Prop where
  targets : ∀ p ∈ ends.descriptorMap, t'.entry p.2 = t.entry p.1
  others : ∀ k d, t'.entry k = some d → d.inheritable = true →
    (∃ n ∈ ends.passed, ∃ e, t.entry n = some e ∧ d.file.pipe = e.file.pipe) →
    k ∈ ends.descriptorMap.map Prod.snd
  status : ∀ d, t.entry ends.statusWrite = some d →
    t'.entry ends.statusWrite = some ⟨d.file, false⟩

/-- The setup keeps the placement: at `execv` the descriptors are placed, and a failure is written
to the status pipe. -/
def Faithful (t : Table) (ends : ChildEnds) : SetupEnd → Prop
  | .executed t' => Placed t ends t'
  | .failed stage _ t' => (stage = .exec → Placed t ends t') ∧
      (t'.entry ends.statusWrite).map (·.file) = (t.entry ends.statusWrite).map (·.file)
  | .raised => False

/-- How many copies can be held above the targets. -/
def room (t : Table) : ℕ := t.free (Finset.Ico (highestTargetDescriptor + 1) t.limit)

/-! ### Staging -/

@[simp] theorem attempt_ok {β : Type} (t : Table) (x : β) : attempt t (.ok x) = .ok x := rfl

@[simp] theorem attempt_error {β : Type} (t : Table) (e : DescriptorError) :
    attempt t (.error e : Except DescriptorError β) = .error (e, t) := rfl

/-- `t'` is `t` with free numbers taken by descriptors that are not inherited. -/
structure Grown (t t' : Table) : Prop where
  limit : t'.limit = t.limit
  entry : ∀ k, t'.entry k = t.entry k ∨ (t.entry k = none ∧ ∃ file, t'.entry k = some ⟨file, false⟩)

section Grown
variable {t t' u : Table}

theorem Grown.refl (t : Table) : Grown t t := ⟨rfl, fun _ => .inl rfl⟩

theorem Grown.opened (h : Grown t t') {k : ℕ} {d : Descriptor OpenFile}
    (hk : t.entry k = some d) : t'.entry k = some d := by
  rcases h.entry k with he | ⟨hnone, -⟩
  · rw [he, hk]
  · rw [hk] at hnone
    cases hnone

theorem Grown.unopened (h : Grown t t') {k : ℕ} (hk : t'.entry k = none) : t.entry k = none := by
  rcases h.entry k with he | ⟨hnone, -⟩
  · rw [← he, hk]
  · exact hnone

theorem Grown.trans (h : Grown t u) (h' : Grown u t') : Grown t t' := by
  refine ⟨h'.limit.trans h.limit, fun k => ?_⟩
  rcases h'.entry k with he | ⟨hnone, hfile⟩
  · rw [he]
    exact h.entry k
  · exact .inr ⟨h.unopened hnone, hfile⟩

theorem Grown.set {m : ℕ} (hm : t.entry m = none) (file : OpenFile) :
    Grown t (t.set m (some ⟨file, false⟩)) := by
  refine ⟨rfl, fun k => ?_⟩
  by_cases hk : k = m
  · subst hk
    exact .inr ⟨hm, file, t.entry_set_self ..⟩
  · exact .inl (t.entry_set_of_ne hk _)

theorem room_set_low {m : ℕ} (hm : m ≤ highestTargetDescriptor) (d : Option (Descriptor OpenFile)) :
    room (t.set m d) = room t := by
  refine t.free_set_of_notMem (fun hmem => ?_) d
  rw [Finset.mem_Ico] at hmem
  omega

theorem room_set_high {m : ℕ} (hm : highestTargetDescriptor < m) (hlt : m < t.limit)
    (hfree : t.entry m = none) (d : Descriptor OpenFile) :
    room (t.set m (some d)) + 1 = room t :=
  t.free_set_of_mem (Finset.mem_Ico.mpr ⟨hm, hlt⟩) hfree d

end Grown

/-- In `t'` the number `held`, free in `t`, is a copy of the file, and nothing above the targets is
taken but `held`. -/
structure Copying (t : Table) (file : OpenFile) (held : ℕ) (t' : Table) : Prop where
  grown : Grown t t'
  below : held < t.limit
  fresh : t.entry held = none
  copy : t'.entry held = some ⟨file, false⟩
  low : held ≤ highestTargetDescriptor → room t' = room t
  high : highestTargetDescriptor < held → room t' + 1 = room t

section Copying
variable {t t' u : Table} {file : OpenFile} {source held m : ℕ} {d : Descriptor OpenFile}

/-- One copy, made where nothing above the targets is taken yet. -/
theorem copying_of_dup (hgrown : Grown t u) (hroom : room u = room t) (hd : u.entry source = some d)
    (h : u.dup source = .ok (m, t')) : Copying t d.file m t' := by
  obtain ⟨d', hd', hlt, hfree, rfl⟩ := DescriptorTable.dup_eq_ok h
  cases hd.symm.trans hd'
  exact
    { grown := hgrown.trans (.set hfree _)
      below := hgrown.limit ▸ hlt
      fresh := hgrown.unopened hfree
      copy := u.entry_set_self ..
      low hm := (room_set_low hm _).trans hroom
      high hm := (room_set_high hm hlt hfree _).trans hroom }

/-- No further copy means that nothing above the targets is free. -/
theorem full_of_dup {e : DescriptorError} (hroom : room u = room t) (hd : u.entry source = some d)
    (h : u.dup source = .error e) : e = .tooManyOpen ∧ room t = 0 := by
  obtain ⟨he, htaken⟩ := DescriptorTable.dup_eq_error hd h
  exact ⟨he, hroom ▸ DescriptorTable.free_eq_zero fun k hk => htaken k (Finset.mem_Ico.mp hk).2⟩

/-- What holding a source above the targets comes to. -/
def HoldEnds (t : Table) (file : OpenFile) : Except (DescriptorError × Table) (ℕ × Table) → Prop
  | .ok s => Copying t file s.1 s.2 ∧ highestTargetDescriptor < s.1
  | .error (error, t') => error = .tooManyOpen ∧ Grown t t' ∧ room t = 0

/-- **A source is held above the targets**, or there is no room. -/
theorem hold_ends (hd : t.entry source = some d) : HoldEnds t d.file (hold t source) := by
  unfold hold
  cases hdup : t.dup source with
  | error e =>
    obtain ⟨rfl, hfull⟩ := full_of_dup rfl hd hdup
    exact ⟨rfl, .refl t, hfull⟩
  | ok s =>
    -- the invariant: the number held is a copy, whether above the targets or not
    refine lifting.run_rule (I := fun s => Copying t d.file s.1 s.2)
      (copying_of_dup (.refl t) rfl hd hdup) ?_ ?_
    · intro s r hs hbody
      simp only [lifting] at hbody
      split at hbody
      · rename_i hlow
        split at hbody
        · rename_i e hdup
          cases hbody
          obtain ⟨rfl, hfull⟩ := full_of_dup (hs.low hlow) hs.copy hdup
          exact ⟨rfl, hs.grown, hfull⟩
        · cases hbody
      · rename_i hhigh
        cases hbody
        exact ⟨hs, by omega⟩
    · intro s next hs hbody
      simp only [lifting] at hbody
      split at hbody
      · rename_i hlow
        split at hbody
        · cases hbody
        · rename_i hdup
          cases hbody
          exact copying_of_dup (d := ⟨d.file, false⟩) hs.grown (hs.low hlow) hs.copy hdup
      · cases hbody

end Copying

/-- `q` holds the source of `p` above the targets, for the target of `p`. -/
structure Copied (t t' : Table) (p q : ℕ × ℕ) : Prop where
  target : q.2 = p.2
  above : highestTargetDescriptor < q.1
  below : q.1 < t.limit
  fresh : t.entry q.1 = none
  copy : ∀ d, t.entry p.1 = some d → t'.entry q.1 = some ⟨d.file, false⟩

/-- The outcome of the first loop: every pair of the map has its copy. -/
structure Staged (t : Table) (map staged : List (ℕ × ℕ)) (t' : Table) : Prop where
  grown : Grown t t'
  copied : ∀ p ∈ map, ∃ q ∈ staged, Copied t t' p q
  copies : ∀ q ∈ staged, ∃ p ∈ map, Copied t t' p q
  targets : staged.map Prod.snd = map.map Prod.snd
  distinct : (staged.map Prod.fst).Nodup
  room : room t' + map.length = Staging.room t

/-- What staging a map comes to. -/
def StageEnds (t : Table) (map : List (ℕ × ℕ)) :
    Except (DescriptorError × Table) (List (ℕ × ℕ) × Table) → Prop
  | .ok (staged, t') => Staged t map staged t'
  | .error (error, t') => error = .tooManyOpen ∧ Grown t t' ∧ room t < map.length

section Staged
variable {t t' u : Table} {p q : ℕ × ℕ} {map staged : List (ℕ × ℕ)}

theorem Copied.of_grown (hgrown : Grown t u) (h : Copied u t' p q) : Copied t t' p q where
  target := h.target
  above := h.above
  below := hgrown.limit ▸ h.below
  fresh := hgrown.unopened h.fresh
  copy _ hd := h.copy _ (hgrown.opened hd)

/-- What is copied first stays copied. -/
theorem first_copied {held : ℕ} {d : Descriptor OpenFile} (hd : t.entry p.1 = some d)
    (hheld : Copying t d.file held u) (habove : highestTargetDescriptor < held)
    (hgrown : Grown u t') : Copied t t' p (held, p.2) := by
  refine ⟨rfl, habove, hheld.below, hheld.fresh, fun d' hd' => ?_⟩
  cases hd.symm.trans hd'
  exact hgrown.opened hheld.copy

/-- A copy made first, and then the copies of the rest. -/
theorem Staged.cons {held : ℕ} {d : Descriptor OpenFile} (hd : t.entry p.1 = some d)
    (hheld : Copying t d.file held u) (habove : highestTargetDescriptor < held)
    (h : Staged u map staged t') : Staged t (p :: map) ((held, p.2) :: staged) t' where
  grown := hheld.grown.trans h.grown
  copied := by
    rintro p' hp'
    rcases List.mem_cons.mp hp' with rfl | hp'
    · exact ⟨_, List.mem_cons_self, first_copied hd hheld habove h.grown⟩
    · obtain ⟨q, hq, hcopied⟩ := h.copied p' hp'
      exact ⟨q, List.mem_cons_of_mem _ hq, hcopied.of_grown hheld.grown⟩
  copies := by
    rintro q hq
    rcases List.mem_cons.mp hq with rfl | hq
    · exact ⟨p, List.mem_cons_self, first_copied hd hheld habove h.grown⟩
    · obtain ⟨p', hp', hcopied⟩ := h.copies q hq
      exact ⟨p', List.mem_cons_of_mem _ hp', hcopied.of_grown hheld.grown⟩
  targets := by rw [List.map_cons, List.map_cons, h.targets]
  distinct := by
    rw [List.map_cons, List.nodup_cons]
    refine ⟨fun hmem => ?_, h.distinct⟩
    -- the copies of the rest take numbers that are free where `held` is taken
    obtain ⟨q, hq, hfst⟩ := List.mem_map.mp hmem
    obtain ⟨p', -, hcopied⟩ := h.copies q hq
    have hfree := hcopied.fresh
    rw [hfst, hheld.copy] at hfree
    cases hfree
  room := by
    have h1 := hheld.high habove
    have h2 := h.room
    rw [List.length_cons]
    omega

/-- **Staging copies every source of the map**, or there is no room for so many copies. -/
theorem stage_ends (hopen : ∀ p ∈ map, ∃ d, t.entry p.1 = some d) :
    StageEnds t map (stage t map) := by
  induction map generalizing t with
  | nil => exact ⟨.refl t, by simp, by simp, rfl, by simp, rfl⟩
  | cons p map ih =>
    obtain ⟨d, hd⟩ := hopen p List.mem_cons_self
    have hhold := hold_ends hd
    unfold stage
    cases hheld : hold t p.1 with
    | error e =>
      rw [hheld] at hhold
      obtain ⟨herror, hgrown, hfull⟩ := hhold
      refine ⟨herror, hgrown, ?_⟩
      rw [hfull]
      exact Nat.succ_pos _
    | ok s =>
      rw [hheld] at hhold
      obtain ⟨hcopying, habove⟩ := hhold
      have hrest := @ih s.2 fun p' hp' => by
        obtain ⟨d', hd'⟩ := hopen p' (List.mem_cons_of_mem _ hp')
        exact ⟨d', hcopying.grown.opened hd'⟩
      simp only [Except.bind]
      cases hstage : stage s.2 map with
      | error e =>
        rw [hstage] at hrest
        obtain ⟨herror, hgrown, hfull⟩ := hrest
        have hroom := hcopying.high habove
        refine ⟨herror, hcopying.grown.trans hgrown, ?_⟩
        rw [List.length_cons]
        omega
      | ok r =>
        rw [hstage] at hrest
        exact .cons hd hcopying habove hrest

end Staged

/-! ### Placing -/

/-- The table after the sources are closed. -/
structure Closed (t : Table) (numbers : List ℕ) (t' : Table) : Prop where
  limit : t'.limit = t.limit
  gone : ∀ k ∈ numbers, t'.entry k = none
  others : ∀ k ∉ numbers, t'.entry k = t.entry k

section Placing
variable {t t' u : Table} {map staged : List (ℕ × ℕ)}

theorem closeSources_closed (hopen : ∀ p ∈ map, ∃ d, t.entry p.1 = some d)
    (hdistinct : (map.map Prod.fst).Nodup) :
    ∃ t', closeSources t map = .ok t' ∧ Closed t (map.map Prod.fst) t' := by
  induction map generalizing t with
  | nil => exact ⟨t, rfl, rfl, by simp, fun _ _ => rfl⟩
  | cons p map ih =>
    obtain ⟨d, hd⟩ := hopen p List.mem_cons_self
    rw [List.map_cons, List.nodup_cons] at hdistinct
    have hne : ∀ p' ∈ map, p'.1 ≠ p.1 := fun p' hp' he =>
      hdistinct.1 (List.mem_map.mpr ⟨p', hp', he⟩)
    obtain ⟨t', hclose, hclosed⟩ := @ih (t.set p.1 none) (fun p' hp' => by
      rw [t.entry_set_of_ne (hne p' hp')]
      exact hopen p' (List.mem_cons_of_mem _ hp')) hdistinct.2
    refine ⟨t', ?_, hclosed.limit, fun k hk => ?_, fun k hk => ?_⟩
    · unfold closeSources
      rw [DescriptorTable.close_of_open hd]
      exact hclose
    · rcases List.mem_cons.mp hk with rfl | hk
      · rw [hclosed.others _ hdistinct.1, DescriptorTable.entry_set_self]
      · exact hclosed.gone k hk
    · rw [List.map_cons, List.mem_cons, not_or] at hk
      rw [hclosed.others k hk.2, t.entry_set_of_ne hk.1]

/-- What placing copies comes to: each target refers to the file of its copy, the copies are closed,
and nothing else changes. -/
structure PlacedAll (t : Table) (staged : List (ℕ × ℕ)) (t' : Table) : Prop where
  targets : ∀ q ∈ staged, ∀ d, t.entry q.1 = some d → t'.entry q.2 = some ⟨d.file, true⟩
  gone : ∀ q ∈ staged, t'.entry q.1 = none
  others : ∀ k, k ∉ staged.map Prod.fst → k ∉ staged.map Prod.snd → t'.entry k = t.entry k

/-- Copies that can be placed: open, above every target, and on different numbers, as are the
targets. -/
structure Ready (t : Table) (staged : List (ℕ × ℕ)) : Prop where
  opened : ∀ q ∈ staged, ∃ d, t.entry q.1 = some d
  below : ∀ q ∈ staged, q.1 < t.limit
  apart : ∀ q ∈ staged, ∀ q' ∈ staged, q.2 < q'.1
  distinct : (staged.map Prod.fst).Nodup
  targets : (staged.map Prod.snd).Nodup

/-- One copy placed: the table with its target set and its number free. -/
def placeOne (t : Table) (q : ℕ × ℕ) (d : Descriptor OpenFile) : Table :=
  (t.set q.2 (some ⟨d.file, true⟩)).set q.1 none

theorem placeOne_other {q : ℕ × ℕ} {d : Descriptor OpenFile} {k : ℕ} (h1 : k ≠ q.1)
    (h2 : k ≠ q.2) : (placeOne t q d).entry k = t.entry k := by
  unfold placeOne
  rw [DescriptorTable.entry_set_of_ne _ h1, DescriptorTable.entry_set_of_ne _ h2]

theorem place_cons {q : ℕ × ℕ} {d : Descriptor OpenFile} (h : Ready t (q :: staged))
    (hd : t.entry q.1 = some d) : place t (q :: staged) = place (placeOne t q d) staged := by
  have hlt := h.apart q List.mem_cons_self q List.mem_cons_self
  have hlimit := h.below q List.mem_cons_self
  have hkept : (t.set q.2 (some ⟨d.file, true⟩)).entry q.1 = some d := by
    rw [DescriptorTable.entry_set_of_ne _ (by omega), hd]
  conv_lhs => unfold place
  rw [DescriptorTable.dup2_of_open hd (by omega) (by omega)]
  simp only [attempt_ok, Except.bind, DescriptorTable.close_of_open hkept]
  rfl

theorem Ready.tail {q : ℕ × ℕ} {d : Descriptor OpenFile} (h : Ready t (q :: staged)) :
    Ready (placeOne t q d) staged where
  opened q' hq' := by
    have hne1 : q'.1 ≠ q.1 := fun he =>
      (List.nodup_cons.mp h.distinct).1 (List.mem_map.mpr ⟨q', hq', he⟩)
    have hlt := h.apart q List.mem_cons_self q' (List.mem_cons_of_mem _ hq')
    rw [placeOne_other hne1 (by omega)]
    exact h.opened q' (List.mem_cons_of_mem _ hq')
  below q' hq' := h.below q' (List.mem_cons_of_mem _ hq')
  apart q' hq' q'' hq'' := h.apart q' (List.mem_cons_of_mem _ hq') q'' (List.mem_cons_of_mem _ hq'')
  distinct := (List.nodup_cons.mp h.distinct).2
  targets := (List.nodup_cons.mp h.targets).2

/-- **The copies are placed.** -/
theorem place_placed (h : Ready t staged) : ∃ t', place t staged = .ok t' ∧ PlacedAll t staged t' := by
  induction staged generalizing t with
  | nil => exact ⟨t, rfl, by simp, by simp, fun _ _ _ => rfl⟩
  | cons q staged ih =>
    obtain ⟨d, hd⟩ := h.opened q List.mem_cons_self
    obtain ⟨t', hplace, hplaced⟩ := ih (h.tail (q := q) (d := d))
    -- neither number of the first copy is one of the rest
    have hheld : q.1 ∉ staged.map Prod.fst := (List.nodup_cons.mp h.distinct).1
    have htarget : q.2 ∉ staged.map Prod.snd := (List.nodup_cons.mp h.targets).1
    have hlt := h.apart q List.mem_cons_self q List.mem_cons_self
    have hheld' : q.1 ∉ staged.map Prod.snd := fun hmem => by
      obtain ⟨q', hq', he⟩ := List.mem_map.mp hmem
      have := h.apart q' (List.mem_cons_of_mem _ hq') q List.mem_cons_self
      omega
    have htarget' : q.2 ∉ staged.map Prod.fst := fun hmem => by
      obtain ⟨q', hq', he⟩ := List.mem_map.mp hmem
      have := h.apart q List.mem_cons_self q' (List.mem_cons_of_mem _ hq')
      omega
    refine ⟨t', (place_cons h hd).trans hplace, fun q' hq' d' hd' => ?_, fun q' hq' => ?_,
      fun k hk hk' => ?_⟩
    · rcases List.mem_cons.mp hq' with rfl | hq'
      · cases hd.symm.trans hd'
        rw [hplaced.others _ htarget' htarget, placeOne, DescriptorTable.entry_set_of_ne _ (by omega),
          DescriptorTable.entry_set_self]
      · have hne1 : q'.1 ≠ q.1 := fun he => hheld (List.mem_map.mpr ⟨q', hq', he⟩)
        have hlt' := h.apart q List.mem_cons_self q' (List.mem_cons_of_mem _ hq')
        refine hplaced.targets q' hq' d' ?_
        rw [placeOne_other hne1 (by omega), hd']
    · rcases List.mem_cons.mp hq' with rfl | hq'
      · rw [hplaced.others _ hheld hheld', placeOne, DescriptorTable.entry_set_self]
      · exact hplaced.gone q' hq'
    · rw [List.map_cons, List.mem_cons, not_or] at hk hk'
      rw [hplaced.others k hk.2 hk'.2, placeOne_other hk.1 hk'.1]

end Placing

/-! ### The descriptor step -/

/-- A map whose sources are open and distinct and whose targets are distinct and in range. -/
structure Sources (t : Table) (map : List (ℕ × ℕ)) : Prop where
  opened : ∀ p ∈ map, ∃ d, t.entry p.1 = some d
  distinct : (map.map Prod.fst).Nodup
  targets : (map.map Prod.snd).Nodup
  inRange : ∀ p ∈ map, p.2 ≤ highestTargetDescriptor

/-- The outcome of the descriptor step: each target refers to the file of its source, a source that
is no target is closed, and at other numbers there are at most new descriptors that are not
inherited. -/
structure Moved (t : Table) (map : List (ℕ × ℕ)) (t' : Table) : Prop where
  targets : ∀ p ∈ map, ∀ d, t.entry p.1 = some d → t'.entry p.2 = some ⟨d.file, true⟩
  others : ∀ k ∉ map.map Prod.snd, ∀ d, t'.entry k = some d → d.inheritable = true →
    k ∉ map.map Prod.fst ∧ t.entry k = some d
  kept : ∀ k, k ∉ map.map Prod.fst → k ∉ map.map Prod.snd → ∀ d, t.entry k = some d →
    t'.entry k = some d

/-- What the descriptor step comes to. -/
def StepEnds (t : Table) (map : List (ℕ × ℕ)) : Except (DescriptorError × Table) Table → Prop
  | .ok t' => Moved t map t' ∧ map.length ≤ room t
  | .error (_, t') => Grown t t' ∧ room t < map.length

section Step
variable {t t' u v : Table} {map staged : List (ℕ × ℕ)}

theorem Staged.ready (h : Sources t map) (hstaged : Staged t map staged u)
    (hclosed : Closed u (map.map Prod.fst) v) : Ready v staged where
  opened q hq := by
    obtain ⟨p, hp, hcopied⟩ := hstaged.copies q hq
    obtain ⟨d, hd⟩ := h.opened p hp
    refine ⟨_, (hclosed.others _ fun hmem => ?_).trans (hcopied.copy d hd)⟩
    obtain ⟨p', hp', he⟩ := List.mem_map.mp hmem
    obtain ⟨d', hd'⟩ := h.opened p' hp'
    rw [he, hcopied.fresh] at hd'
    cases hd'
  below q hq := by
    obtain ⟨p, hp, hcopied⟩ := hstaged.copies q hq
    rw [hclosed.limit, hstaged.grown.limit]
    exact hcopied.below
  apart q hq q' hq' := by
    obtain ⟨p, hp, hcopied⟩ := hstaged.copies q hq
    obtain ⟨p', -, hcopied'⟩ := hstaged.copies q' hq'
    have := h.inRange p hp
    have := hcopied.target
    have := hcopied'.above
    omega
  distinct := hstaged.distinct
  targets := hstaged.targets ▸ h.targets

theorem moved_of_placed (h : Sources t map) (hstaged : Staged t map staged u)
    (hclosed : Closed u (map.map Prod.fst) v) (hplaced : PlacedAll v staged t') : Moved t map t' where
  targets p hp d hd := by
    obtain ⟨q, hq, hcopied⟩ := hstaged.copied p hp
    have hnot : q.1 ∉ map.map Prod.fst := fun hmem => by
      obtain ⟨p', hp', he⟩ := List.mem_map.mp hmem
      obtain ⟨d', hd'⟩ := h.opened p' hp'
      rw [he, hcopied.fresh] at hd'
      cases hd'
    rw [← hcopied.target]
    exact hplaced.targets q hq ⟨d.file, false⟩ ((hclosed.others _ hnot).trans (hcopied.copy d hd))
  others k hk d hd hinherit := by
    by_cases hheld : k ∈ staged.map Prod.fst
    · obtain ⟨q, hq, rfl⟩ := List.mem_map.mp hheld
      rw [hplaced.gone q hq] at hd
      cases hd
    rw [hplaced.others k hheld (hstaged.targets ▸ hk)] at hd
    by_cases hsource : k ∈ map.map Prod.fst
    · rw [hclosed.gone k hsource] at hd
      cases hd
    rw [hclosed.others k hsource] at hd
    refine ⟨hsource, ?_⟩
    -- what staging added is not inherited
    rcases hstaged.grown.entry k with he | ⟨-, file, he⟩
    · rw [← he, hd]
    · rw [he] at hd
      cases hd
      cases hinherit
  kept k hsource htarget d hd := by
    have hheld : k ∉ staged.map Prod.fst := fun hmem => by
      obtain ⟨q, hq, rfl⟩ := List.mem_map.mp hmem
      obtain ⟨p, -, hcopied⟩ := hstaged.copies q hq
      rw [hcopied.fresh] at hd
      cases hd
    rw [hplaced.others k hheld (hstaged.targets ▸ htarget), hclosed.others k hsource]
    exact hstaged.grown.opened hd

/-- **The descriptor step moves every source to its target**, or there is no room to stage them. -/
theorem descriptorStep_ends (h : Sources t map) : StepEnds t map (descriptorStep t map) := by
  have hstage := stage_ends h.opened
  unfold descriptorStep
  cases hs : stage t map with
  | error e =>
    rw [hs] at hstage
    exact ⟨hstage.2.1, hstage.2.2⟩
  | ok r =>
    obtain ⟨staged, u⟩ := r
    rw [hs] at hstage
    have hopen : ∀ p ∈ map, ∃ d, u.entry p.1 = some d := fun p hp => by
      obtain ⟨d, hd⟩ := h.opened p hp
      exact ⟨d, hstage.grown.opened hd⟩
    obtain ⟨v, hv, hclosed⟩ := closeSources_closed hopen h.distinct
    obtain ⟨t', ht', hplaced⟩ := place_placed (hstage.ready h hclosed)
    have hroom := hstage.room
    simp only [Except.bind, hv, ht']
    exact ⟨moved_of_placed h hstage hclosed hplaced, by omega⟩

end Step

/-! ### The setup -/

section Setup
variable {t t' u : Table} {ends : ChildEnds} {calls : Calls}

theorem mem_descriptorMap_fst {p : ℕ × ℕ} (hp : p ∈ ends.descriptorMap) : p.1 ∈ ends.passed :=
  List.mem_append_left _ (List.mem_map.mpr ⟨p, hp, rfl⟩)

theorem statusWrite_mem_passed : ends.statusWrite ∈ ends.passed :=
  List.mem_append_right _ (List.mem_singleton_self _)

/-- The targets of a map. -/
theorem targets_eq (ends : ChildEnds) : ends.descriptorMap.map Prod.snd =
    if ends.protocolWrite.isSome then [0, 1, 2, 3] else [0, 1, 2] := by
  unfold ChildEnds.descriptorMap
  cases ends.protocolWrite <;> rfl

theorem targets_nodup (ends : ChildEnds) : (ends.descriptorMap.map Prod.snd).Nodup := by
  rw [targets_eq]
  split <;> decide

theorem targets_inRange {p : ℕ × ℕ} (hp : p ∈ ends.descriptorMap) :
    p.2 ≤ highestTargetDescriptor := by
  have hall : ∀ m ∈ ends.descriptorMap.map Prod.snd, m ≤ highestTargetDescriptor := by
    rw [targets_eq]
    split <;> decide
  exact hall p.2 (List.mem_map.mpr ⟨p, hp, rfl⟩)

/-- The status number above the standard ones is a target exactly when it is the protocol's. -/
theorem status_target_iff (habove : 2 < ends.statusWrite) :
    ends.statusWrite ∈ ends.descriptorMap.map Prod.snd ↔
      ends.protocolWrite.isSome ∧ ends.statusWrite = payloadProtocolDescriptor := by
  rw [targets_eq, payloadProtocolDescriptor]
  split
  · rename_i hprotocol
    simp only [List.mem_cons, List.not_mem_nil, or_false, hprotocol, true_and]
    omega
  · rename_i hprotocol
    simp only [List.mem_cons, List.not_mem_nil, or_false, hprotocol, Bool.false_eq_true, false_and,
      iff_false]
    omega

theorem Inherits.status_notMem (h : Inherits t ends) :
    ends.statusWrite ∉ ends.descriptorMap.map Prod.fst := fun hmem =>
  List.disjoint_of_nodup_append h.distinct hmem (List.mem_singleton_self _)

/-- The table once the status descriptor is closed by `execv`. -/
theorem Inherits.marked (h : Inherits t ends) : ∃ d, t.entry ends.statusWrite = some d ∧
    t.setInheritable ends.statusWrite false =
      .ok (t.set ends.statusWrite (some ⟨d.file, false⟩)) ∧
    room (t.set ends.statusWrite (some ⟨d.file, false⟩)) = room t := by
  obtain ⟨file, pipe, hd, -⟩ := h.opened _ statusWrite_mem_passed
  refine ⟨_, hd, DescriptorTable.setInheritable_of_open hd _, ?_⟩
  unfold room DescriptorTable.free
  congr 1
  refine Finset.filter_congr fun k _ => ?_
  by_cases hk : k = ends.statusWrite
  · subst hk
    simp [hd]
  · rw [t.entry_set_of_ne hk]

theorem Inherits.sources (h : Inherits t ends) (d : Option (Descriptor OpenFile)) :
    Sources (t.set ends.statusWrite d) ends.descriptorMap where
  opened p hp := by
    have hne : p.1 ≠ ends.statusWrite := fun he =>
      h.status_notMem (he ▸ List.mem_map.mpr ⟨p, hp, rfl⟩)
    obtain ⟨file, pipe, hd, -⟩ := h.opened _ (mem_descriptorMap_fst hp)
    exact ⟨_, (t.entry_set_of_ne hne _).trans hd⟩
  distinct := h.distinct.sublist (List.sublist_append_left _ _)
  targets := targets_nodup ends
  inRange _ hp := targets_inRange hp

/-- A move from the inherited descriptors is a faithful placement when it leaves the status number
alone. -/
theorem Inherits.placed (h : Inherits t ends) {d : Descriptor OpenFile}
    (hd : t.entry ends.statusWrite = some d)
    (hmoved : Moved (t.set ends.statusWrite (some ⟨d.file, false⟩)) ends.descriptorMap t')
    (hstatus : ends.statusWrite ∉ ends.descriptorMap.map Prod.snd) : Placed t ends t' where
  targets p hp := by
    have hne : p.1 ≠ ends.statusWrite := fun he =>
      h.status_notMem (he ▸ List.mem_map.mpr ⟨p, hp, rfl⟩)
    obtain ⟨file, pipe, hp', -⟩ := h.opened _ (mem_descriptorMap_fst hp)
    rw [hp', hmoved.targets p hp _ ((t.entry_set_of_ne hne _).trans hp')]
  others k e he hinherit := by
    rintro ⟨n, hn, d', hd', hpipe⟩
    by_contra hk
    obtain ⟨hsource, hold⟩ := hmoved.others k hk e he hinherit
    by_cases hks : k = ends.statusWrite
    · subst hks
      rw [DescriptorTable.entry_set_self] at hold
      cases hold
      cases hinherit
    rw [t.entry_set_of_ne hks] at hold
    obtain rfl := h.pipes n hn k d' e hd' hold hinherit hpipe
    rcases List.mem_append.mp hn with hmem | hmem
    · exact hsource hmem
    · exact hks (List.mem_singleton.mp hmem)
  status d' hd' := by
    cases hd.symm.trans hd'
    exact hmoved.kept _ h.status_notMem hstatus _ (DescriptorTable.entry_set_self ..)

/-- A move that places the protocol's descriptor on the status number loses the status pipe. -/
theorem Inherits.lost (h : Inherits t ends) {d : Descriptor OpenFile}
    (hd : t.entry ends.statusWrite = some d)
    (hmoved : Moved (t.set ends.statusWrite (some ⟨d.file, false⟩)) ends.descriptorMap t')
    (hstatus : ends.statusWrite ∈ ends.descriptorMap.map Prod.snd) :
    (t'.entry ends.statusWrite).map (·.file) ≠ (t.entry ends.statusWrite).map (·.file) := by
  obtain ⟨p, hp, htarget⟩ := List.mem_map.mp hstatus
  have hne : p.1 ≠ ends.statusWrite := fun he =>
    h.status_notMem (he ▸ List.mem_map.mpr ⟨p, hp, rfl⟩)
  obtain ⟨file, pipe, hp', hpipe⟩ := h.opened _ (mem_descriptorMap_fst hp)
  have hmove := hmoved.targets p hp _ ((t.entry_set_of_ne hne _).trans hp')
  rw [htarget] at hmove
  rw [hmove, hd]
  intro he
  -- the two files would be one end of one pipe
  have hfile : file = d.file := Option.some.inj he
  exact hne (h.pipes _ statusWrite_mem_passed _ _ _ hd hp' rfl (congrArg OpenFile.pipe hfile))

/-- **The setup keeps the placement exactly when the status number is not the protocol's target**,
if it gets to the point of placing anything there. -/
theorem setup_faithful_iff (calls : Calls) (h : Inherits t ends) :
    Faithful t ends (setup calls ends t) ↔
      (calls.setsid = none → calls.chdir = none → ends.descriptorMap.length ≤ room t →
        ¬ (ends.protocolWrite.isSome ∧ ends.statusWrite = payloadProtocolDescriptor)) := by
  obtain ⟨d, hd, hmark, hroom⟩ := h.marked
  rw [← status_target_iff (h.above _ statusWrite_mem_passed)]
  have hset : ((t.set ends.statusWrite (some ⟨d.file, false⟩)).entry ends.statusWrite).map (·.file) =
      (t.entry ends.statusWrite).map (·.file) := by
    rw [DescriptorTable.entry_set_self, hd]
    rfl
  unfold setup
  rw [hmark]
  dsimp only
  cases hsetsid : calls.setsid with
  | some e => exact iff_of_true ⟨nofun, hset⟩ nofun
  | none =>
    cases hchdir : calls.chdir with
    | some e => exact iff_of_true ⟨nofun, hset⟩ fun _ => nofun
    | none =>
      have hstep := descriptorStep_ends (h.sources (some ⟨d.file, false⟩))
      simp only [forall_const]
      cases hs : descriptorStep (t.set ends.statusWrite (some ⟨d.file, false⟩)) ends.descriptorMap with
      | error r =>
        obtain ⟨error, t'⟩ := r
        rw [hs] at hstep
        obtain ⟨hgrown, hfull⟩ := hstep
        have hkept := hgrown.opened (t.entry_set_self ends.statusWrite (some ⟨d.file, false⟩))
        refine iff_of_true ⟨nofun, ?_⟩ fun hle => ?_
        · rw [hkept, hd]
          rfl
        · omega
      | ok t' =>
        rw [hs] at hstep
        obtain ⟨hmoved, hle⟩ := hstep
        rw [hroom] at hle
        by_cases hstatus : ends.statusWrite ∈ ends.descriptorMap.map Prod.snd
        · refine iff_of_false (fun hf => ?_) fun hnot => hnot hle hstatus
          have hlost := h.lost hd hmoved hstatus
          cases hexec : calls.execv with
          | some e =>
            rw [hexec] at hf
            exact hlost hf.2
          | none =>
            rw [hexec] at hf
            refine hlost ?_
            rw [hf.status d hd, hd]
            rfl
        · have hplaced := h.placed hd hmoved hstatus
          refine iff_of_true ?_ fun _ => hstatus
          cases hexec : calls.execv with
          | some e =>
            refine ⟨fun _ => hplaced, ?_⟩
            rw [hplaced.status d hd, hd]
            rfl
          | none => exact hplaced

end Setup

/-! ### Launched processes -/

/-- The end that a passed descriptor is of its pipe: the payload reads the first one. -/
def endOf : ℕ → OpenFile
  | 0 => .readEnd 0
  | pipe => .writeEnd pipe

/-- The descriptors with which `launch_bootstrap` starts its process: the null device at the
standard numbers and what is passed. -/
def launched (limit : ℕ) (ends : ChildEnds) : Table where
  limit := limit
  entry n :=
    if n ≤ 2 then some ⟨.other 0, true⟩
    else if n ∈ ends.passed then some ⟨endOf (ends.passed.idxOf n), true⟩
    else none

theorem pipe_endOf (pipe : ℕ) : (endOf pipe).pipe = some pipe := by
  cases pipe <;> rfl

theorem launched_entry {limit : ℕ} {ends : ChildEnds} {n : ℕ} (habove : 2 < n)
    (hn : n ∈ ends.passed) :
    (launched limit ends).entry n = some ⟨endOf (ends.passed.idxOf n), true⟩ := by
  unfold launched
  dsimp only
  rw [if_neg (by omega), if_pos hn]

/-- **A launched process inherits what was passed to it.** -/
theorem launched_inherits (limit : ℕ) {ends : ChildEnds} (hdistinct : ends.passed.Nodup)
    (habove : ∀ n ∈ ends.passed, 2 < n) : Inherits (launched limit ends) ends where
  distinct := hdistinct
  above := habove
  opened n hn := ⟨_, _, launched_entry (habove n hn) hn, pipe_endOf _⟩
  pipes n hn k d e hd he _ hpipe := by
    rw [launched_entry (habove n hn) hn] at hd
    cases hd
    unfold launched at he
    dsimp only at he
    split_ifs at he with hlow hk
    · cases he
      rw [pipe_endOf] at hpipe
      cases hpipe
    · cases he
      rw [pipe_endOf, pipe_endOf] at hpipe
      exact (List.idxOf_inj hk).mp (Option.some.inj hpipe)

/-- The protocol's source sits on its own target, which is free of the status descriptor. -/
theorem crossed_faithful :
    Faithful (launched 16 ⟨4, 5, 6, some 3, 7⟩) ⟨4, 5, 6, some 3, 7⟩
      (setup {} ⟨4, 5, 6, some 3, 7⟩ (launched 16 ⟨4, 5, 6, some 3, 7⟩)) :=
  (setup_faithful_iff {} (launched_inherits 16 (by decide) (by decide))).mpr
    fun _ _ _ => by decide

/-- **A status descriptor on the number 3 is overwritten** by the protocol's, and the payload would
hold no status pipe to report on. -/
theorem status_overwritten :
    Inherits (launched 16 ⟨4, 5, 6, some 7, 3⟩) ⟨4, 5, 6, some 7, 3⟩ ∧
    ¬ Faithful (launched 16 ⟨4, 5, 6, some 7, 3⟩) ⟨4, 5, 6, some 7, 3⟩
      (setup {} ⟨4, 5, 6, some 7, 3⟩ (launched 16 ⟨4, 5, 6, some 7, 3⟩)) := by
  refine ⟨launched_inherits 16 (by decide) (by decide), fun hfaithful => ?_⟩
  have hstatus := Placed.status hfaithful ⟨.writeEnd 4, true⟩ rfl
  exact absurd hstatus (by decide)

end DrExec.Execution.Staging
