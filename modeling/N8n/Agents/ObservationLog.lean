import Mathlib.Data.List.Nodup

namespace N8n.Agents

inductive ObservationLogMarker
  | critical | important | info | completion
  deriving DecidableEq

def ObservationLogMarker.label : ObservationLogMarker → String
  | .critical => "CRITICAL"
  | .important => "IMPORTANT"
  | .info => "INFO"
  | .completion => "COMPLETION"

inductive ObservationLogStatus
  | active | superseded | dropped
  deriving DecidableEq

/-- What the renderers and the store read of an entry. The ids are strings, or code units where their order counts. -/
structure LogEntry (Id Count : Type) where
  id : Id
  marker : ObservationLogMarker
  text : String
  parentId : Option Id
  tokenCount : Count
  status : ObservationLogStatus
  createdAt : Int
  deriving DecidableEq

end N8n.Agents

namespace N8n.ObservationLog

open Agents

/-- A token count that is not finite is `none`. -/
abbrev Entry := LogEntry String (Option Int)

/-- The parent by a test of truth, which an empty string does not pass. -/
def Entry.parent (entry : Entry) : Option String := entry.parentId.filter (· ≠ "")

structure Host where
  localeCompare : String → String → Int
  hours : Int → Nat
  minutes : Int → Nat
  toISOString : Int → String

def getStoredObservationTokenCount (entry : Entry) : Int :=
  match entry.tokenCount with
  | some n => if n > 0 then n else entry.text.utf8ByteSize
  | none => entry.text.utf8ByteSize

variable (host : Host)

def compareEntries (a b : Entry) : Int :=
  let timeDiff := a.createdAt - b.createdAt
  if timeDiff ≠ 0 then timeDiff else host.localeCompare a.id b.id

def activeEntries (entries : List Entry) : List Entry :=
  (entries.filter fun e => e.status = .active).mergeSort fun a b => compareEntries host a b ≤ 0

abbrev Bullet := String × Entry

def bullets (isRoot isChild : Entry → Bool) (entries : List Entry) : List Bullet :=
  (entries.filter isRoot).flatMap fun root =>
    ("", root) :: (entries.filter fun e => isChild e && e.parent = some root.id).map ("  ", ·)

def renderReflectionBullet (b : Bullet) : String :=
  s!"{b.1}* [{b.2.id}] {b.2.marker.label} {host.toISOString b.2.createdAt} {b.2.text}"

def reflectionBullets (entries : List Entry) : List Bullet :=
  let active := activeEntries host entries
  let isChild := fun e : Entry => e.parent.any (· ∈ active.map LogEntry.id)
  bullets (fun e => !isChild e) isChild active

def renderObservationLogForReflection (entries : List Entry) : String :=
  "\n".intercalate ((reflectionBullets host entries).map (renderReflectionBullet host))

def memoryIntro : String :=
  "The following is your memory of this conversation. It accumulates as observations are made. Older entries may have been merged or dropped during periodic restructuring."

def markerLegend : String :=
  "Marker legend: CRITICAL = must retain, IMPORTANT = useful continuity, INFO = contextual detail, COMPLETION = completed/resolved."

def padStart2 (n : Nat) : String := if n < 10 then "0" ++ toString n else toString n

def formatObservationTime (date : Int) : String := padStart2 (host.hours date) ++ ":" ++ padStart2 (host.minutes date)

def renderBullet (b : Bullet) : String :=
  s!"{b.1}* {b.2.marker.label} ({formatObservationTime host b.2.createdAt}) {b.2.text}"

def charge : Option Int → List Entry → List Entry
  | _, [] => []
  | remaining, entry :: entries =>
    let tokenCount := getStoredObservationTokenCount entry
    if remaining.any (tokenCount > ·) then charge remaining entries
    else entry :: charge (remaining.map (· - tokenCount)) entries

def charged (entries : List Entry) (renderTokenBudget : Option Int) : List Entry :=
  charge renderTokenBudget (activeEntries host entries)

def logBullets (entries : List Entry) (renderTokenBudget : Option Int) : List Bullet :=
  let included := (charged host entries renderTokenBudget).map LogEntry.id
  bullets (fun e => e.parent = none) (fun e => e.parent.any (· ∈ included))
    ((activeEntries host entries).filter fun e => e.id ∈ included)

def renderObservationLog (entries : List Entry) (renderTokenBudget : Option Int) : Option String :=
  match logBullets host entries renderTokenBudget with
  | [] => none
  | lines =>
    some ("\n".intercalate
      (["<observations>", memoryIntro, markerLegend, ""] ++ lines.map (renderBullet host) ++ ["</observations>"]))

structure Log where
  entries : List Entry
  ids : (entries.map LogEntry.id).Nodup

def PrintsOnce (lines : List Bullet) (entries : List Entry) : Prop :=
  ∀ e ∈ entries, (lines.map Prod.snd).count e = 1

section Bullets

variable {isRoot isChild : Entry → Bool} {entries : List Entry} {e : Entry}

theorem mem_bullets : e ∈ (bullets isRoot isChild entries).map Prod.snd ↔ e ∈ entries ∧
    (isRoot e = true ∨ isChild e = true ∧ ∃ p ∈ entries, isRoot p = true ∧ e.parent = some p.id) := by
  simp only [bullets, List.map_flatMap, List.mem_flatMap, List.mem_filter, List.map_cons, List.map_map, List.mem_cons]
  constructor
  · rintro ⟨root, ⟨hmem, hroot⟩, rfl | he⟩
    · exact ⟨hmem, .inl hroot⟩
    · obtain ⟨c, hc, rfl⟩ := List.mem_map.mp he
      rw [List.mem_filter, Bool.and_eq_true, decide_eq_true_eq] at hc
      exact ⟨hc.1, .inr ⟨hc.2.1, root, hmem, hroot, hc.2.2⟩⟩
  · rintro ⟨hmem, hroot | ⟨hchild, p, hp, hroot, hparent⟩⟩
    · exact ⟨e, ⟨hmem, hroot⟩, .inl rfl⟩
    · refine ⟨p, ⟨hp, hroot⟩, .inr (List.mem_map.mpr ⟨e, List.mem_filter.mpr ⟨hmem, ?_⟩, rfl⟩)⟩
      rw [hchild, hparent, decide_eq_true rfl, Bool.and_self]

theorem nodup_bullets (hids : (entries.map LogEntry.id).Nodup) (hroot : ∀ e, isRoot e = true → isChild e = false) :
    ((bullets isRoot isChild entries).map Prod.snd).Nodup := by
  have hentries : entries.Nodup := hids.of_map
  have hinj := List.inj_on_of_nodup_map hids
  have hmap : (bullets isRoot isChild entries).map Prod.snd = (entries.filter isRoot).flatMap fun root =>
      root :: entries.filter fun e => isChild e && e.parent = some root.id := by
    rw [bullets, List.map_flatMap]
    refine List.flatMap_congr fun root _ => congrArg (root :: ·) ?_
    rw [List.map_map]
    exact List.map_id _
  have hchild : ∀ (root e : Entry), e ∈ (entries.filter fun e => isChild e && e.parent = some root.id) →
      isChild e = true ∧ e.parent = some root.id := by
    intro root e he
    have hand := (List.mem_filter.mp he).2
    rwa [Bool.and_eq_true, decide_eq_true_eq] at hand
  rw [hmap, List.nodup_flatMap]
  constructor
  · intro root hr
    refine List.nodup_cons.mpr ⟨fun he => ?_, hentries.filter _⟩
    exact Bool.noConfusion ((hroot root (List.mem_filter.mp hr).2).symm.trans (hchild root root he).1)
  · refine (hentries.filter isRoot).imp_of_mem fun {a b} ha hb hne => ?_
    intro e hea heb
    have hra := hroot a (List.mem_filter.mp ha).2
    have hrb := hroot b (List.mem_filter.mp hb).2
    rcases List.mem_cons.mp hea with rfl | hea <;> rcases List.mem_cons.mp heb with rfl | heb
    · exact hne rfl
    · exact Bool.noConfusion (hra.symm.trans (hchild b e heb).1)
    · exact Bool.noConfusion (hrb.symm.trans (hchild a e hea).1)
    · have heq := (hchild a e hea).2.symm.trans (hchild b e heb).2
      exact hne (hinj (List.mem_filter.mp ha).1 (List.mem_filter.mp hb).1 (Option.some.inj heq))

theorem printsOnce_iff (hids : (entries.map LogEntry.id).Nodup) (hroot : ∀ e, isRoot e = true → isChild e = false) :
    PrintsOnce (bullets isRoot isChild entries) entries ↔ ∀ e ∈ entries,
      isRoot e = true ∨ isChild e = true ∧ ∃ p ∈ entries, isRoot p = true ∧ e.parent = some p.id := by
  refine forall₂_congr fun e he => ?_
  rw [← and_iff_right (b := isRoot e = true ∨ _) he, ← mem_bullets]
  constructor
  · intro hone
    exact List.count_pos_iff.mp (hone ▸ Nat.one_pos)
  · exact List.count_eq_one_of_mem (nodup_bullets hids hroot)

end Bullets

section Renderers

variable {host} {log : Log} {budget : Option Int} {entries : List Entry} {e : Entry}

theorem mem_activeEntries : e ∈ activeEntries host entries ↔ e ∈ entries ∧ e.status = .active := by
  rw [activeEntries, List.mem_mergeSort, List.mem_filter, decide_eq_true_eq]

theorem Log.active_ids (log : Log) : ((activeEntries host log.entries).map LogEntry.id).Nodup := by
  rw [activeEntries, ((List.mergeSort_perm _ _).map LogEntry.id).nodup_iff]
  exact log.ids.sublist (List.filter_sublist.map _)

def ParentIn (entries : List Entry) (e p : Entry) : Prop := p ∈ entries ∧ e.parent = some p.id

theorem parent_any {ids : List String} : e.parent.any (· ∈ ids) = true ↔ ∃ id ∈ ids, e.parent = some id := by
  cases e.parent with
  | none => simp
  | some id => simp

theorem parent_any_map {entries : List Entry} :
    e.parent.any (· ∈ entries.map LogEntry.id) = true ↔ ∃ p, ParentIn entries e p := by
  rw [parent_any]
  constructor
  · rintro ⟨_, hid, hparent⟩
    obtain ⟨p, hp, rfl⟩ := List.mem_map.mp hid
    exact ⟨p, hp, hparent⟩
  · rintro ⟨p, hp, hparent⟩
    exact ⟨p.id, List.mem_map_of_mem hp, hparent⟩

theorem reflectionBullets_printsOnce (log : Log) :
    PrintsOnce (reflectionBullets host log.entries) (activeEntries host log.entries) ↔
      ∀ e ∈ activeEntries host log.entries, ∀ p, ParentIn (activeEntries host log.entries) e p →
        ∀ q, ¬ ParentIn (activeEntries host log.entries) p q := by
  have hids : ((activeEntries host log.entries).map LogEntry.id).Nodup := log.active_ids
  have hinj := List.inj_on_of_nodup_map hids
  rw [reflectionBullets, printsOnce_iff log.active_ids fun e h => Bool.not_eq_true' _ ▸ h]
  refine forall₂_congr fun e he => ?_
  simp only [Bool.not_eq_true', Bool.eq_false_iff, ne_eq, parent_any_map]
  constructor
  · rintro (hroot | ⟨-, p, hp, hroot, hparent⟩) p' hp' q hq
    · exact hroot ⟨p', hp'⟩
    · have hsame : p = p' := hinj hp hp'.1 (Option.some.inj (hparent.symm.trans hp'.2))
      exact hroot ⟨q, hsame ▸ hq⟩
  · intro h
    by_cases hchild : ∃ p, ParentIn (activeEntries host log.entries) e p
    · obtain ⟨p, hp⟩ := hchild
      exact .inr ⟨⟨p, hp⟩, p, hp.1, fun ⟨q, hq⟩ => h p hp q hq, hp.2⟩
    · exact .inl hchild

theorem charge_sublist : (charge budget entries).Sublist entries := by
  induction entries generalizing budget with
  | nil => exact .slnil
  | cons e entries ih =>
    rw [charge]
    split
    · exact ih.cons e
    · exact ih.cons_cons e

theorem charge_none : charge none entries = entries := by
  induction entries with
  | nil => rfl
  | cons e entries ih => exact congrArg (e :: ·) ih

theorem mem_included (log : Log) : e ∈ ((activeEntries host log.entries).filter fun e =>
    e.id ∈ (charged host log.entries budget).map LogEntry.id) ↔ e ∈ charged host log.entries budget := by
  have hsub : charged host log.entries budget ⊆ activeEntries host log.entries := charge_sublist.subset
  rw [List.mem_filter, decide_eq_true_eq]
  constructor
  · rintro ⟨he, hid⟩
    obtain ⟨c, hc, heq⟩ := List.mem_map.mp hid
    rwa [← List.inj_on_of_nodup_map log.active_ids (hsub hc) he heq]
  · intro he
    exact ⟨hsub he, List.mem_map_of_mem he⟩

/-- No parent, or one of the entries that has none. -/
def UnderRoot (entries : List Entry) (e : Entry) : Prop :=
  e.parent = none ∨ ∃ p, ParentIn entries e p ∧ p.parent = none

theorem logBullets_printsOnce (log : Log) (budget : Option Int) :
    PrintsOnce (logBullets host log.entries budget) (charged host log.entries budget) ↔
      ∀ e ∈ charged host log.entries budget, UnderRoot (charged host log.entries budget) e := by
  let included := (activeEntries host log.entries).filter fun e =>
    e.id ∈ (charged host log.entries budget).map LogEntry.id
  have hids : (included.map LogEntry.id).Nodup := log.active_ids.sublist (List.filter_sublist.map _)
  have hprints : PrintsOnce (logBullets host log.entries budget) (charged host log.entries budget) ↔
      PrintsOnce (logBullets host log.entries budget) included :=
    forall_congr' fun e => imp_congr_left (mem_included log).symm
  have hroot : ∀ e : Entry, decide (e.parent = none) = true →
      e.parent.any (· ∈ (charged host log.entries budget).map LogEntry.id) = false := by
    intro e h
    rw [of_decide_eq_true h]
    rfl
  rw [hprints, logBullets, printsOnce_iff hids hroot]
  refine forall_congr' fun e => imp_congr (mem_included log) ?_
  simp only [decide_eq_true_eq, parent_any_map]
  refine or_congr Iff.rfl ⟨?_, ?_⟩
  · rintro ⟨-, p, hp, hroot, hparent⟩
    exact ⟨p, ⟨(mem_included log).mp hp, hparent⟩, hroot⟩
  · rintro ⟨p, hp, hroot⟩
    exact ⟨⟨p, hp⟩, p, (mem_included log).mpr hp.1, hroot, hp.2⟩

/-- The text for the reflector shows every entry exactly if no parent has a parent of its own in the log, and the text
for the model shows every entry that it charges exactly if each of them has no parent or one that is charged and has no
parent. -/
theorem render_complete_iff (host : Host) (log : Log) :
    (PrintsOnce (reflectionBullets host log.entries) (activeEntries host log.entries) ↔
      ∀ e ∈ activeEntries host log.entries, ∀ p, ParentIn (activeEntries host log.entries) e p →
        ∀ q, ¬ ParentIn (activeEntries host log.entries) p q) ∧
    (PrintsOnce (logBullets host log.entries none) (activeEntries host log.entries) ↔
      ∀ e ∈ activeEntries host log.entries, UnderRoot (activeEntries host log.entries) e) ∧
    ∀ budget, PrintsOnce (logBullets host log.entries budget) (charged host log.entries budget) ↔
      ∀ e ∈ charged host log.entries budget, UnderRoot (charged host log.entries budget) e := by
  refine ⟨reflectionBullets_printsOnce log, ?_, logBullets_printsOnce log⟩
  have h : PrintsOnce (logBullets host log.entries none) _ ↔ _ := logBullets_printsOnce log none
  rwa [charged, charge_none] at h

end Renderers

/-- A child of a child is shown neither to the reflector nor to the model. -/
theorem grandchild_hidden :
    let entry : String → Option String → Entry := fun id parentId => ⟨id, .info, "", parentId, some 1, .active, 0⟩
    let log : Log := ⟨[entry "a" none, entry "b" (some "a"), entry "c" (some "b")], by decide⟩
    let host : Host := ⟨fun _ _ => 0, fun _ => 0, fun _ => 0, fun _ => ""⟩
    ¬ PrintsOnce (reflectionBullets host log.entries) (activeEntries host log.entries) ∧
      ¬ PrintsOnce (logBullets host log.entries none) (activeEntries host log.entries) := by
  intro entry log host
  have hmem : ∀ e ∈ log.entries, e ∈ activeEntries host log.entries := by
    intro e he
    refine mem_activeEntries.mpr ⟨he, ?_⟩
    simp only [log, List.mem_cons, List.not_mem_nil, or_false] at he
    rcases he with rfl | rfl | rfl <;> rfl
  have hc : entry "c" (some "b") ∈ activeEntries host log.entries := hmem _ (by simp [log])
  have hcb : ParentIn (activeEntries host log.entries) (entry "c" (some "b")) (entry "b" (some "a")) :=
    ⟨hmem _ (by simp [log]), rfl⟩
  have hba : ParentIn (activeEntries host log.entries) (entry "b" (some "a")) (entry "a" none) :=
    ⟨hmem _ (by simp [log]), rfl⟩
  constructor
  · intro h
    exact (reflectionBullets_printsOnce log).mp h _ hc _ hcb _ hba
  · intro h
    have hlog : PrintsOnce (logBullets host log.entries none) _ ↔ _ := logBullets_printsOnce log none
    rw [charged, charge_none] at hlog
    rcases hlog.mp h _ hc with hnone | ⟨p, hp, hnone⟩
    · exact absurd hnone (by decide)
    · have hsame := List.inj_on_of_nodup_map log.active_ids hp.1 hcb.1 (Option.some.inj (hp.2.symm.trans hcb.2))
      exact absurd (hsame ▸ hnone) (by decide)

end N8n.ObservationLog
