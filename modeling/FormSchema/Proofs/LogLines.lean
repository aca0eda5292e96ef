import FormSchema.Proofs.JsonTexts
import FormSchema.Proofs.LogSession

/-!
# Lines that are objects

Where records are written as JSON objects, what a line says is given by the members that it is read
as: the message, the values of the call under their names in a record, and the members of the record
itself, put in one after the other (`lineEntries`). The line is the literal of these members
(`jsonEntries_recordOf`), so it is read as them.

A value of the call is there unless it is displaced (`lookup_lineEntries_iff`). The level and the time
take their names from the context, and two values that come to one name in a record share one member
(`contextKey_eq_iff`): one of them has a reserved name, and the other one the name that stands for
it. A value that is named like the access to the message keeps the whole line from being written
(`text_recordOf`).
-/

namespace FormSchema

namespace LogState

/-! ## Names in a record -/

/-- One of two names is reserved, and the other one stands for it in a record. -/
def AreNamesakes (a b : String) : Prop :=
  a ∈ reservedNames ∧ b = "ctx_" ++ a ∨ b ∈ reservedNames ∧ a = "ctx_" ++ b

instance (a b : String) : Decidable (AreNamesakes a b) :=
  inferInstanceAs (Decidable (_ ∨ _))

theorem prefixed_not_reserved (key : String) : "ctx_" ++ key ∉ reservedNames := by
  have hreserved : ∀ name ∈ reservedNames, name.toList.take 4 ≠ ['c', 't', 'x', '_'] := by decide
  intro hmem
  refine hreserved _ hmem ?_
  rw [String.toList_append]
  rfl

theorem contextKey_of_mem {key : String} (h : key ∈ reservedNames) :
    contextKey key = "ctx_" ++ key := by
  rw [contextKey, if_pos (List.contains_iff_mem.2 h)]

theorem contextKey_of_not_mem {key : String} (h : key ∉ reservedNames) : contextKey key = key := by
  rw [contextKey, if_neg (by simpa using h)]

theorem prefixed_inj {a b : String} (h : "ctx_" ++ a = "ctx_" ++ b) : a = b := by
  have hlists := congrArg String.toList h
  rw [String.toList_append, String.toList_append] at hlists
  exact String.toList_inj.1 (List.append_cancel_left hlists)

/-- Two names come to one name in a record if they are the same, or if one of them is reserved and
the other one stands for it. -/
theorem contextKey_eq_iff {a b : String} :
    contextKey a = contextKey b ↔ a = b ∨ AreNamesakes a b := by
  by_cases ha : a ∈ reservedNames
  · rw [contextKey_of_mem ha]
    by_cases hb : b ∈ reservedNames
    · rw [contextKey_of_mem hb]
      constructor
      · exact fun h => .inl (prefixed_inj h)
      · rintro (rfl | ⟨-, rfl⟩ | ⟨-, rfl⟩)
        · rfl
        · exact absurd hb (prefixed_not_reserved a)
        · exact absurd ha (prefixed_not_reserved b)
    · rw [contextKey_of_not_mem hb]
      constructor
      · exact fun h => .inr (.inl ⟨ha, h.symm⟩)
      · rintro (rfl | ⟨-, rfl⟩ | ⟨hb', -⟩)
        · exact absurd ha hb
        · rfl
        · exact absurd hb' hb
  · rw [contextKey_of_not_mem ha]
    by_cases hb : b ∈ reservedNames
    · rw [contextKey_of_mem hb]
      constructor
      · exact fun h => .inr (.inr ⟨hb, h⟩)
      · rintro (rfl | ⟨ha', -⟩ | ⟨-, rfl⟩)
        · exact absurd hb ha
        · exact absurd ha' ha
        · rfl
    · rw [contextKey_of_not_mem hb]
      constructor
      · exact .inl
      · rintro (rfl | ⟨ha', -⟩ | ⟨hb', -⟩)
        · rfl
        · exact absurd ha' ha
        · exact absurd hb' hb

/-- Only one other name comes to the same name in a record. -/
theorem AreNamesakes.unique {a b c : String} (hab : AreNamesakes a b) (hac : AreNamesakes a c) :
    b = c := by
  rcases hab with ⟨ha, rfl⟩ | ⟨-, rfl⟩
  · rcases hac with ⟨-, rfl⟩ | ⟨-, rfl⟩
    · rfl
    · exact absurd ha (prefixed_not_reserved c)
  · rcases hac with ⟨ha, rfl⟩ | ⟨-, heq⟩
    · exact absurd ha (prefixed_not_reserved b)
    · exact prefixed_inj heq

theorem contextKey_not_reserved (key : String) : contextKey key ∉ reservedNames := by
  by_cases h : key ∈ reservedNames
  · rw [contextKey_of_mem h]
    exact prefixed_not_reserved key
  · rwa [contextKey_of_not_mem h]

/-- A name that is neither reserved nor stands for a reserved one is kept, and no other name comes
to it. -/
theorem contextKey_eq_plain_iff {key name : String} (hreserved : name ∉ reservedNames)
    (hfront : name.toList.take 4 ≠ ['c', 't', 'x', '_']) :
    contextKey key = name ↔ key = name := by
  have hiff := contextKey_eq_iff (a := key) (b := name)
  rw [contextKey_of_not_mem hreserved] at hiff
  rw [hiff]
  constructor
  · rintro (rfl | ⟨-, rfl⟩ | ⟨hname, -⟩)
    · rfl
    · exact absurd (by rw [String.toList_append]; rfl) hfront
    · exact absurd hname hreserved
  · exact .inl

/-- Such a name has no namesake. -/
theorem not_areNamesakes_plain {name other : String} (hreserved : name ∉ reservedNames)
    (hfront : name.toList.take 4 ≠ ['c', 't', 'x', '_']) : ¬ AreNamesakes name other := by
  rintro (⟨hname, -⟩ | ⟨-, rfl⟩)
  · exact hreserved hname
  · exact hfront (by rw [String.toList_append]; rfl)

/-! ## The members of a line -/

/-- The values that the context of a record carries. -/
def carried (combined : LogContext) : LogContext :=
  combined.filter fun e => e.1 != "exc_info"

/-- What the context of a record says, before it is merged. -/
def contextEntries (combined : LogContext) : List (String × Datum) :=
  (carried combined).map fun e => (contextKey e.1, e.2.toDatum)

/-- What a line says about the record itself. -/
def ownEntries (s : LogState) (level : LogLevel) : List (String × Datum) :=
  ("name", .text s.name) ::
    ((if s.settings.includeLevel then [("level", .text level.name)] else []) ++
      s.stamp.toList.map fun time => ("timestamp", .text time))

/-- All that a line says, before it is merged. -/
def saidEntries (s : LogState) (level : LogLevel) (message : String) (combined : LogContext) :
    List (String × Datum) :=
  ("message", .text message) :: (contextEntries combined ++ ownEntries s level)

/-- The members of a line. -/
def lineEntries (s : LogState) (level : LogLevel) (message : String) (combined : LogContext) :
    List (String × Datum) :=
  putEntries [] (saidEntries s level message combined)

variable {s : LogState} {level : LogLevel} {message : String} {combined : LogContext}

theorem access_mem_contextOf (combined : LogContext) :
    LogRecord.messageAccess ∈ (contextOf combined).map Prod.fst ↔
      LogRecord.messageAccess ∈ (carried combined).map Prod.fst := by
  rw [(contextOf_isMerge combined).keys, List.mem_eraseDups, List.map_map]
  constructor
  · intro h
    obtain ⟨e, he, hkey⟩ := List.mem_map.1 h
    rw [← (contextKey_eq_plain_iff (by decide) (by decide)).1 hkey]
    exact List.mem_map_of_mem he
  · intro h
    obtain ⟨e, he, hkey⟩ := List.mem_map.1 h
    exact List.mem_map.2 ⟨e, he, (contextKey_eq_plain_iff (by decide) (by decide)).2 hkey⟩

/-- The context of a record hides its message if a value is named like the access to it. -/
theorem text_recordOf (s : LogState) (l : Logger) (level : LogLevel) (message : String)
    (values : LogContext) :
    (s.recordOf l level message values).text =
      if LogRecord.messageAccess ∈ (carried (Logger.combined l values)).map Prod.fst then
        .error .hidden
      else .ok message := by
  have hany : ((s.recordOf l level message values).context.any fun e =>
      e.1 == LogRecord.messageAccess) = true ↔
        LogRecord.messageAccess ∈ (carried (Logger.combined l values)).map Prod.fst := by
    rw [← access_mem_contextOf, List.any_eq_true, List.mem_map]
    simp only [beq_iff_eq]
    rfl
  rw [LogRecord.text]
  split
  · rename_i hhidden
    rw [if_pos (hany.1 hhidden)]
  · rename_i hhidden
    rw [if_neg fun hmem => hhidden (hany.2 hmem)]
    rfl

/-- What a line says about the record itself comes last. -/
theorem putEntries_ownEntries (s : LogState) (level : LogLevel) (r : LogRecord)
    (hstamp : r.stamp = s.stamp) (es : List (String × Datum)) :
    putEntries es (s.ownEntries level) =
      putEntries
        (if s.settings.includeLevel then
          putEntry (putEntry es "name" (.text s.name)) "level" (.text level.name)
        else putEntry es "name" (.text s.name))
        (LogLayout.stampEntries r) := by
  rw [ownEntries, LogLayout.stampEntries, hstamp]
  cases s.settings.includeLevel <;> cases s.stamp <;> rfl

theorem jsonEntries_recordOf (s : LogState) (l : Logger) (level : LogLevel) (message : String)
    (values : LogContext) (htrace : traceOf (Logger.combined l values) = .nothing)
    (haccess : LogRecord.messageAccess ∉ (carried (Logger.combined l values)).map Prod.fst) :
    s.layout.jsonEntries (s.recordOf l level message values) =
      .ok (s.lineEntries level message (Logger.combined l values)) := by
  have htext := text_recordOf s l level message values
  rw [if_neg haccess] at htext
  have htraces : LogLayout.traceEntries (s.recordOf l level message values).trace = .ok [] := by
    rw [recordOf, htrace]
    rfl
  have hcontext : mapValues LogValue.toDatum (s.recordOf l level message values).context =
      putEntries [] (contextEntries (Logger.combined l values)) := by
    have hsame : mapValues LogValue.toDatum
        ((carried (Logger.combined l values)).map fun e => (contextKey e.1, e.2)) =
          contextEntries (Logger.combined l values) := by
      simp only [mapValues, contextEntries, List.map_map]
      rfl
    rw [← hsame]
    exact (putEntries_mapValues LogValue.toDatum [] _).symm
  have hmessage : (([("message", Datum.text message)] : List (String × Datum)).map
      Prod.fst).Nodup := List.nodup_singleton _
  rw [LogLayout.jsonEntries, htext, htraces, lineEntries]
  refine congrArg Except.ok ?_
  calc putEntries _ (LogLayout.stampEntries (s.recordOf l level message values))
      = putEntries (putEntries [("message", .text message)]
          (mapValues LogValue.toDatum (s.recordOf l level message values).context))
          (s.ownEntries level) :=
        (putEntries_ownEntries s level _ rfl _).symm
    _ = putEntries (putEntries [("message", .text message)]
          (contextEntries (Logger.combined l values))) (s.ownEntries level) := by
        rw [hcontext, putEntries_merged hmessage]
    _ = putEntries [] (s.saidEntries level message (Logger.combined l values)) := by
        rw [saidEntries, ← putEntries_updates]
        rfl

/-- The numbers that the members of a line hold. -/
def lineNumbers (s : LogState) (level : LogLevel) (message : String) (combined : LogContext) :
    List Number :=
  (Datum.record (s.lineEntries level message combined)).numbers

/-- A value of the call is displaced: by the level or the time of the record, or by a later value
that has the name that stands for its own, or the other way around. -/
def IsDisplaced (s : LogState) (level : LogLevel) (combined : LogContext) (e : String × LogValue) :
    Prop :=
  (e.1 = "level" ∧ s.settings.includeLevel = true ∧ e.2.toDatum.json ≠ .string level.name) ∨
    (e.1 = "timestamp" ∧ ∃ time ∈ s.stamp, e.2.toDatum.json ≠ .string time) ∨
    ∃ before after, carried combined = before ++ e :: after ∧
      ∃ later ∈ after, AreNamesakes e.1 later.1 ∧ later.2.toDatum.json ≠ e.2.toDatum.json

theorem lookup_lineEntries (s : LogState) (level : LogLevel) (message : String)
    (combined : LogContext) (key : String) :
    (s.lineEntries level message combined).lookup key =
      ((s.ownEntries level).reverse.lookup key).or
        (((contextEntries combined).reverse.lookup key).or
          (if key = "message" then some (.text message) else none)) := by
  rw [lineEntries, (putEntries_isMerge _).values, saidEntries, List.reverse_cons,
    List.reverse_append, List.lookup_append, List.lookup_append, lookup_entry, Option.or_assoc]
  rfl

theorem lookup_ownEntries (s : LogState) (level : LogLevel) (key : String) :
    (s.ownEntries level).reverse.lookup key =
      (if key = "timestamp" then s.stamp.map Datum.text else none).or
        ((if key = "level" ∧ s.settings.includeLevel = true then some (.text level.name)
          else none).or (if key = "name" then some (.text s.name) else none)) := by
  rw [ownEntries, List.reverse_cons, List.reverse_append, List.lookup_append, List.lookup_append,
    Option.or_assoc, lookup_entry]
  congr 1
  · cases s.stamp with
    | none => simp
    | some time => simp [lookup_entry]
  · congr 1
    cases s.settings.includeLevel with
    | false => simp
    | true => simp [lookup_entry]

/-- A reserved name is not the name of a value of the call. -/
theorem lookup_contextEntries_reserved (combined : LogContext) {key : String}
    (h : key ∈ reservedNames) : (contextEntries combined).reverse.lookup key = none := by
  refine lookup_eq_none fun hmem => ?_
  rw [List.map_reverse, List.mem_reverse, contextEntries, List.map_map] at hmem
  obtain ⟨e, -, rfl⟩ := List.mem_map.1 hmem
  exact contextKey_not_reserved e.1 h

/-- An entry whose name stands once has one place. -/
theorem after_unique {e : String × LogValue} {before after before' after' : LogContext}
    (hkeys : ((before ++ e :: after).map Prod.fst).Nodup)
    (hsplit : before ++ e :: after = before' ++ e :: after') : after' = after := by
  have hentries := List.Nodup.of_map Prod.fst hkeys
  rw [List.nodup_append, List.nodup_cons] at hentries
  have hbefore : e ∉ before := fun hmem => hentries.2.2 e hmem e List.mem_cons_self rfl
  exact ((List.append_cons_inj_of_notMem hbefore hentries.2.1.1).1 hsplit).2.2.symm

/-- What is found under the name of a value is a value behind it, or else the value itself. -/
theorem lookup_contextEntries_split {e : String × LogValue} {before after : LogContext}
    (hsplit : carried combined = before ++ e :: after) :
    (contextEntries combined).reverse.lookup (contextKey e.1) =
      ((after.map fun e => (contextKey e.1, e.2.toDatum)).reverse.lookup (contextKey e.1)).or
        (some e.2.toDatum) := by
  rw [contextEntries, hsplit, List.map_append, List.map_cons, List.reverse_append,
    List.reverse_cons, List.lookup_append, List.lookup_append, lookup_entry, if_pos rfl,
    Option.or_assoc, Option.some_or]

/-- What is found under the name of a value, among values of other names, is a namesake. -/
theorem exists_namesake {e : String × LogValue} {after : LogContext}
    (hnames : ∀ later ∈ after, e.1 ≠ later.1) {d : Datum}
    (h : (after.map fun e => (contextKey e.1, e.2.toDatum)).reverse.lookup (contextKey e.1) =
      some d) :
    ∃ later ∈ after, AreNamesakes e.1 later.1 ∧ d = later.2.toDatum := by
  obtain ⟨later, hmem, hd⟩ := List.mem_map.1 (List.mem_reverse.1 (mem_of_lookup h))
  obtain ⟨hkey, rfl⟩ := Prod.mk.inj hd
  exact ⟨later, hmem, (contextKey_eq_iff.1 hkey.symm).resolve_left (hnames later hmem), rfl⟩

/-- A namesake is found under the name of the value. -/
theorem lookup_namesake {e later : String × LogValue} {after : LogContext} (hmem : later ∈ after)
    (hnamesakes : AreNamesakes e.1 later.1) :
    ∃ d, (after.map fun e => (contextKey e.1, e.2.toDatum)).reverse.lookup (contextKey e.1) =
      some d := by
  refine exists_lookup ?_
  rw [List.map_reverse, List.mem_reverse, List.map_map, contextKey_eq_iff.2 (.inr hnamesakes)]
  exact List.mem_map_of_mem hmem

/-- A value of the call is found under its name in the record, unless a later namesake has another
value. -/
theorem lookup_contextEntries_iff (hnodup : (combined.map Prod.fst).Nodup) {e : String × LogValue}
    (he : e ∈ carried combined) :
    ((contextEntries combined).reverse.lookup (contextKey e.1)).map Datum.json =
      some e.2.toDatum.json ↔
        ¬ ∃ before after, carried combined = before ++ e :: after ∧
          ∃ later ∈ after, AreNamesakes e.1 later.1 ∧
            later.2.toDatum.json ≠ e.2.toDatum.json := by
  obtain ⟨before, after, hsplit⟩ := List.append_of_mem he
  have hkeys : ((before ++ e :: after).map Prod.fst).Nodup :=
    hsplit ▸ hnodup.sublist (List.filter_sublist.map Prod.fst)
  have hafter : ∀ before' after', carried combined = before' ++ e :: after' → after' = after :=
    fun _ _ hsplit' => after_unique hkeys (hsplit.symm.trans hsplit')
  rw [List.map_append, List.map_cons, List.nodup_append, List.nodup_cons] at hkeys
  obtain ⟨hfirst, hrest⟩ := hkeys.2.1
  have hnames : ∀ later ∈ after, e.1 ≠ later.1 := fun later hmem heq =>
    hfirst (heq ▸ List.mem_map_of_mem hmem)
  rw [lookup_contextEntries_split hsplit]
  cases hlookup : (after.map fun e => (contextKey e.1, e.2.toDatum)).reverse.lookup
      (contextKey e.1) with
  | none =>
    rw [Option.none_or, Option.map_some]
    refine iff_of_true rfl ?_
    rintro ⟨before', after', hsplit', later, hmem, hnamesakes, -⟩
    rw [hafter before' after' hsplit'] at hmem
    obtain ⟨d, hd⟩ := lookup_namesake hmem hnamesakes
    cases hlookup.symm.trans hd
  | some d =>
    rw [Option.some_or, Option.map_some]
    obtain ⟨later, hmem, hnamesake, rfl⟩ := exists_namesake hnames hlookup
    constructor
    · rintro heq ⟨before', after', hsplit', other, hother, hothersake, hne⟩
      rw [hafter before' after' hsplit'] at hother
      have hsame : other = later :=
        List.inj_on_of_nodup_map hrest hother hmem (hothersake.unique hnamesake)
      rw [hsame] at hne
      exact hne (Option.some.inj heq)
    · intro hclear
      by_contra hne
      exact hclear ⟨before, after, hsplit, later, hmem, hnamesake, fun heq => hne (heq ▸ rfl)⟩

/-- A value in the place of the time is displaced by the time, unless it says the same. -/
theorem isDisplaced_stamped {e : String × LogValue} (heq : e.1 = "timestamp") {time : String}
    (hstamp : s.stamp = some time) :
    IsDisplaced s level combined e ↔ e.2.toDatum.json ≠ .string time := by
  constructor
  · rintro (⟨hlevel, -⟩ | ⟨-, t, ht, hne⟩ | ⟨_, _, _, _, _, hnamesakes, -⟩)
    · exact absurd (heq.symm.trans hlevel) (by decide)
    · cases hstamp.symm.trans ht
      exact hne
    · rw [heq] at hnamesakes
      exact absurd hnamesakes (not_areNamesakes_plain (by decide) (by decide))
  · exact fun hne => .inr (.inl ⟨heq, time, hstamp, hne⟩)

/-- A value in the place of the level is displaced by the level, unless it says the same. -/
theorem isDisplaced_levelled {e : String × LogValue} (heq : e.1 = "level")
    (hinclude : s.settings.includeLevel = true) :
    IsDisplaced s level combined e ↔ e.2.toDatum.json ≠ .string level.name := by
  constructor
  · rintro (⟨-, -, hne⟩ | ⟨htime, -⟩ | ⟨_, _, _, _, _, hnamesakes, -⟩)
    · exact hne
    · exact absurd (heq.symm.trans htime) (by decide)
    · rw [heq] at hnamesakes
      exact absurd hnamesakes (not_areNamesakes_plain (by decide) (by decide))
  · exact fun hne => .inl ⟨heq, hinclude, hne⟩

/-- Any other value is displaced by a later namesake only. -/
theorem isDisplaced_other {e : String × LogValue}
    (hlevelled : ¬ (e.1 = "level" ∧ s.settings.includeLevel = true))
    (hstamped : ¬ (e.1 = "timestamp" ∧ s.stamp.isSome = true)) :
    IsDisplaced s level combined e ↔
      ∃ before after, carried combined = before ++ e :: after ∧
        ∃ later ∈ after, AreNamesakes e.1 later.1 ∧
          later.2.toDatum.json ≠ e.2.toDatum.json := by
  constructor
  · rintro (⟨heq, hinclude, -⟩ | ⟨heq, time, htime, -⟩ | hclash)
    · exact absurd ⟨heq, hinclude⟩ hlevelled
    · exact absurd ⟨heq, Option.isSome_of_mem htime⟩ hstamped
    · exact hclash
  · exact fun hclash => .inr (.inr hclash)

/-- A value of the call is a member of the line unless it is displaced. -/
theorem lookup_lineEntries_iff (hnodup : (combined.map Prod.fst).Nodup) {e : String × LogValue}
    (he : e ∈ carried combined) :
    (mapValues Datum.json (s.lineEntries level message combined)).lookup (contextKey e.1) =
      some e.2.toDatum.json ↔ ¬ IsDisplaced s level combined e := by
  have hmessage : contextKey e.1 ≠ "message" := fun h =>
    contextKey_not_reserved e.1 (h ▸ by decide)
  have hname : contextKey e.1 ≠ "name" := fun h => contextKey_not_reserved e.1 (h ▸ by decide)
  have hlevel : contextKey e.1 = "level" ↔ e.1 = "level" :=
    contextKey_eq_plain_iff (by decide) (by decide)
  have htime : contextKey e.1 = "timestamp" ↔ e.1 = "timestamp" :=
    contextKey_eq_plain_iff (by decide) (by decide)
  rw [lookup_mapValues, lookup_lineEntries, lookup_ownEntries, if_neg hmessage, if_neg hname,
    Option.or_none, Option.or_none]
  simp only [hlevel, htime]
  by_cases hstamped : e.1 = "timestamp" ∧ s.stamp.isSome = true
  · obtain ⟨heq, hsome⟩ := hstamped
    obtain ⟨time, hstamp⟩ := Option.isSome_iff_exists.1 hsome
    rw [if_pos heq, isDisplaced_stamped heq hstamp, hstamp, Option.map_some, Option.some_or,
      Option.some_or, Option.map_some, Option.some_inj, not_not]
    exact eq_comm
  have hunstamped : (if e.1 = "timestamp" then s.stamp.map Datum.text else none) = none := by
    split
    · rename_i heq
      have hnone : s.stamp = none := by simpa [heq] using hstamped
      rw [hnone]
      rfl
    · rfl
  rw [hunstamped, Option.none_or]
  by_cases hlevelled : e.1 = "level" ∧ s.settings.includeLevel = true
  · rw [if_pos hlevelled, isDisplaced_levelled hlevelled.1 hlevelled.2, Option.some_or,
      Option.map_some, Option.some_inj, not_not]
    exact eq_comm
  · rw [if_neg hlevelled, Option.none_or, lookup_contextEntries_iff hnodup he,
      isDisplaced_other hlevelled hstamped]

/-- The members of a line that the record itself has. -/
theorem lookup_lineEntries_own (s : LogState) (level : LogLevel) (message : String)
    (combined : LogContext) :
    (s.lineEntries level message combined).lookup "message" = some (.text message) ∧
      (s.lineEntries level message combined).lookup "name" = some (.text s.name) ∧
      (s.settings.includeLevel = true →
        (s.lineEntries level message combined).lookup "level" = some (.text level.name)) ∧
      ∀ time ∈ s.stamp,
        (s.lineEntries level message combined).lookup "timestamp" = some (.text time) := by
  refine ⟨?_, ?_, fun hinclude => ?_, fun time htime => ?_⟩
  · rw [lookup_lineEntries, lookup_ownEntries, lookup_contextEntries_reserved _ (by decide)]
    simp
  · rw [lookup_lineEntries, lookup_ownEntries]
    simp
  · rw [lookup_lineEntries, lookup_ownEntries]
    simp [hinclude]
  · rw [lookup_lineEntries, lookup_ownEntries, show s.stamp = some time from htime]
    simp

/-! ## What is written -/

/-- A call writes its record if the level is high enough. -/
theorem log_eq_written {index : Nat} {logger : Logger} (hlogger : s.loggers[index]? = some logger)
    {values : LogContext} (hnames : ∀ key ∈ logParameters, key ∉ values.map Prod.fst)
    (hlevel : s.level.rank ≤ level.rank) :
    s.log index level message values =
      (s.written level (s.recordOf logger level message values)).mapError .record := by
  have hfree : ¬ ∃ key ∈ logParameters, key ∈ values.map Prod.fst := by
    rintro ⟨key, hkey, hmem⟩
    exact hnames key hkey hmem
  rw [log, loggerAt, hlogger, checkNames_eq, if_neg hfree]
  exact if_neg (Nat.not_lt.2 hlevel)

/-- Where records are objects, a call writes the object of its record on a line. -/
theorem log_eq_jsonLine {index : Nat} {logger : Logger}
    (hlogger : s.loggers[index]? = some logger) {values : LogContext}
    (hnames : ∀ key ∈ logParameters, key ∉ values.map Prod.fst)
    (hlevel : s.level.rank ≤ level.rank) (hconsole : s.settings.consoleEnabled = true)
    (hjson : s.settings.jsonFormat = true) :
    s.log index level message values =
      ((s.layout.jsonLine (s.recordOf logger level message values)).map
        fun line => line ++ "\n").mapError .record := by
  rw [log_eq_written hlogger hnames hlevel, written, if_pos hconsole, LogLayout.line,
    if_pos (show s.layout.json = true from hjson)]

/-- A record whose message is hidden has no line. -/
theorem jsonLine_hidden (s : LogState) (l : Logger) (level : LogLevel) (message : String)
    {values : LogContext}
    (haccess : LogRecord.messageAccess ∈ (carried (Logger.combined l values)).map Prod.fst) :
    s.layout.jsonLine (s.recordOf l level message values) = .error .hidden := by
  rw [LogLayout.jsonLine, LogLayout.jsonEntries, text_recordOf, if_pos haccess]
  rfl

/-- The line of a record holds its entries, if their numbers can be written. -/
theorem jsonLine_recordOf (s : LogState) (l : Logger) (level : LogLevel) (message : String)
    {values : LogContext} (htrace : traceOf (Logger.combined l values) = .nothing)
    (haccess : LogRecord.messageAccess ∉ (carried (Logger.combined l values)).map Prod.fst) :
    s.layout.jsonLine (s.recordOf l level message values) =
      writing .tooLong (s.lineNumbers level message (Logger.combined l values))
        (Datum.record (s.lineEntries level message (Logger.combined l values))).literal := by
  rw [LogLayout.jsonLine, jsonEntries_recordOf s l level message values htrace haccess]
  rfl

theorem nodup_combined (l : Logger) (values : LogContext) :
    ((Logger.combined l values).map Prod.fst).Nodup := by
  have hnone : (([] : LogContext).map Prod.fst).Nodup := List.nodup_nil
  exact nodup_keys_putEntries (nodup_keys_putEntries (nodup_keys_putEntries hnone _) _) values

/-- What a call writes where records are objects and nothing is said about an exception. Nothing is
written if a value is named like the access to the message, or if a number that would be a member of
the line, or inside of one, has too many digits. Else the line is read as an object in which every
name stands once, with the message, the name of the logger, and the level and the time if they are
wanted; a value of the call is there under its name in the record if and only if it is not
displaced. -/
theorem log_json {index : Nat} {logger : Logger} (hlogger : s.loggers[index]? = some logger)
    {values : LogContext} (hnames : ∀ key ∈ logParameters, key ∉ values.map Prod.fst)
    (hlevel : s.level.rank ≤ level.rank) (hconsole : s.settings.consoleEnabled = true)
    (hjson : s.settings.jsonFormat = true)
    (htrace : traceOf (Logger.combined logger values) = .nothing) :
    let combined := Logger.combined logger values
    (LogRecord.messageAccess ∈ (carried combined).map Prod.fst →
      s.log index level message values = .error (.record .hidden)) ∧
    (LogRecord.messageAccess ∉ (carried combined).map Prod.fst →
      (¬(∀ n ∈ s.lineNumbers level message combined, n.isShort = true) →
        s.log index level message values = .error (.record .tooLong)) ∧
      ((∀ n ∈ s.lineNumbers level message combined, n.isShort = true) →
        ∃ line members, s.log index level message values = .ok (line ++ "\n") ∧
          (JsonValue.object members).IsReadFrom line ∧ (members.map Prod.fst).Nodup ∧
          members.lookup "message" = some (.string message) ∧
          members.lookup "name" = some (.string s.name) ∧
          (s.settings.includeLevel = true →
            members.lookup "level" = some (.string level.name)) ∧
          (∀ time ∈ s.stamp, members.lookup "timestamp" = some (.string time)) ∧
          ∀ e ∈ carried combined, members.lookup (contextKey e.1) = some e.2.toDatum.json ↔
            ¬ IsDisplaced s level combined e)) := by
  intro combined
  have hline : s.log index level message values = _ :=
    log_eq_jsonLine hlogger hnames hlevel hconsole hjson
  constructor
  · intro haccess
    rw [hline, jsonLine_hidden s logger level message haccess]
    rfl
  · intro haccess
    rw [jsonLine_recordOf s logger level message htrace haccess] at hline
    refine ⟨fun hlong => ?_, fun hshort => ?_⟩
    · rw [hline, writing_eq_error.2 ⟨hlong, rfl⟩]
      rfl
    rw [writing_of_short hshort] at hline
    obtain ⟨hmessage, hname, hlevelled, hstamped⟩ :=
      lookup_lineEntries_own s level message combined
    have hkeys : ((s.lineEntries level message combined).map Prod.fst).Nodup :=
      (putEntries_isMerge _).nodup
    refine ⟨_, mapValues Datum.json (s.lineEntries level message combined), hline, ?_, ?_, ?_, ?_,
      fun hinclude => ?_, fun time htime => ?_,
      fun e he => lookup_lineEntries_iff (nodup_combined logger values) he⟩
    · have hread := Datum.literal_isReadFrom (.record (s.lineEntries level message combined))
      rwa [Datum.json, Datum.jsonMembers_eq] at hread
    · rwa [keys_mapValues]
    · rw [lookup_mapValues, hmessage]
      rfl
    · rw [lookup_mapValues, hname]
      rfl
    · rw [lookup_mapValues, hlevelled hinclude]
      rfl
    · rw [lookup_mapValues, hstamped time htime]
      rfl

/-- A logger with a level of its own among its values. -/
def goldLogger : LogState where
  name := "app"
  level := .info
  settings := { jsonFormat := true }
  loggers := [{ bound := [("level", .text "gold")] }]
  clock := some "2024-05-01 12:00:00"

/-- The level of the record takes the place of the one that is bound, while a value with a reserved
name is kept, quotes and all. A value that is named like the access to the message keeps the line
from being written. -/
theorem log_json_goldLogger :
    (∃ line members,
      goldLogger.log 0 .info "m" [("name", .text "\"é😀\"")] = .ok (line ++ "\n") ∧
        (JsonValue.object members).IsReadFrom line ∧
        members.lookup "level" = some (.string "INFO") ∧
        members.lookup "level" ≠ some (.string "gold") ∧
        members.lookup "ctx_name" = some (.string "\"é😀\"")) ∧
    goldLogger.log 0 .info "m" [("getMessage", .text "x")] = .error (.record .hidden) := by
  constructor
  · obtain ⟨line, members, hline, hread, -, -, -, hlevel, -, hheld⟩ :=
      ((@log_json goldLogger .info "m" 0 _ rfl [("name", .text "\"é😀\"")] (by decide) (by decide)
        rfl rfl (by decide)).2 (by decide)).2 (by decide)
    have hcarried : carried (Logger.combined { bound := [("level", .text "gold")] }
        [("name", .text "\"é😀\"")]) = [("level", .text "gold"), ("name", .text "\"é😀\"")] := rfl
    refine ⟨line, members, hline, hread, hlevel rfl, ?_, ?_⟩
    · refine fun hgold => (hheld ("level", .text "gold") ?_).1 hgold (.inl ⟨rfl, rfl, ?_⟩)
      · rw [hcarried]
        exact List.mem_cons_self
      · exact fun h => absurd (JsonValue.string.inj h) (by decide)
    · refine (hheld ("name", .text "\"é😀\"") ?_).2 ?_
      · rw [hcarried]
        exact List.mem_cons_of_mem _ List.mem_cons_self
      · rintro (⟨h, -⟩ | ⟨h, -⟩ | ⟨before, after, hsplit, later, hlater, hnamesakes, -⟩)
        · exact absurd h (by decide)
        · exact absurd h (by decide)
        · rw [hcarried] at hsplit
          have hmem : later ∈ [("level", LogValue.text "gold"), ("name", .text "\"é😀\"")] := by
            rw [hsplit]
            exact List.mem_append_right before (List.mem_cons_of_mem _ hlater)
          have hnone : ∀ name ∈ ["level", "name"], ¬ AreNamesakes "name" name := by decide
          exact hnone later.1 (List.mem_map_of_mem hmem) hnamesakes
  · exact (@log_json goldLogger .info "m" 0 _ rfl [("getMessage", .text "x")] (by decide) (by decide)
      rfl rfl (by decide)).1 (by decide)

end LogState

end FormSchema
