import FormSchema.Log.Logger
import FormSchema.Proofs.Merging
import Mathlib.Data.List.Induction

/-!
# Sessions of loggers

In a session records are logged, loggers are bound from one another, and scopes are opened and
closed (`LogStep`). What the loggers carry is described by `Frames`: for each logger the values that
were bound on the way to it, and a stack of the open scopes. No values are merged or restored there;
a step adds a chain or a scope, or takes the innermost scope away.

The loggers of a session have the state that its frames describe (`Frames.state`), since every step
keeps it so (`state_after`, `state_run`). A scope that was opened is still there below those that
are opened later, as long as the stack is not lower (`scopes_suffix_run`), so that closing it brings
back what was there before (`leave_run`).

What a record carries follows from the frames (`log_run`): the merge of the bound values, the values
of the open scopes of the logger and those of the call, in this order.
-/

namespace FormSchema

/-- A step in a session of loggers that are bound from one another. -/
inductive LogStep
  | log (index : Nat) (level : LogLevel) (message : String) (values : LogContext)
  | bind (index : Nat) (values : LogContext)
  | enter (index : Nat) (values : LogContext)
  | leave

namespace LogState

/-- The state after a step. A step that fails changes nothing. -/
def after (s : LogState) : LogStep → LogState
  | .log .. => s
  | .bind index values => (s.bind index values).toOption.getD s
  | .enter index values => (s.enter index values).toOption.getD s
  | .leave => s.leave.toOption.getD s

/-- The state after a session. -/
def run (s : LogState) (steps : List LogStep) : LogState :=
  steps.foldl after s

/-- The steps close the scopes that they open, and no other ones. -/
def ClosesItsOwn (s : LogState) (steps : List LogStep) : Prop :=
  (∀ earlier, earlier <+: steps → s.opened.length ≤ (s.run earlier).opened.length) ∧
    (s.run steps).opened.length = s.opened.length

/-- Values under a name that is taken are refused, and no others. -/
theorem checkNames_eq (taken : List String) (values : LogContext) :
    checkNames taken values =
      if ∃ key ∈ taken, key ∈ values.map Prod.fst then .error .takenName else .ok () := by
  have hany : (values.any fun e => taken.contains e.1) = true ↔
      ∃ key ∈ taken, key ∈ values.map Prod.fst := by
    simp only [List.any_eq_true, List.contains_iff_mem, List.mem_map]
    constructor
    · rintro ⟨e, he, hkey⟩
      exact ⟨e.1, hkey, e, he, rfl⟩
    · rintro ⟨_, hkey, e, he, rfl⟩
      exact ⟨e, he, hkey⟩
  show (if (values.any fun e => taken.contains e.1) = true then Except.error LogFailure.takenName
    else .ok ()) = _
  simp only [hany]

end LogState

/-! ## Frames -/

/-- What the loggers of a session carry: for each logger the bindings on the way to it, each with
the logger that it made, and the open scopes with their loggers, the innermost first. -/
structure Frames where
  chains : List (List (Nat × LogContext)) := [[]]
  scopes : List (Nat × LogContext) := []

namespace Frames

/-- Whether values can be bound to a logger or put in scope. -/
def Accepts (f : Frames) (index : Nat) (values : LogContext) : Prop :=
  index < f.chains.length ∧ "self" ∉ values.map Prod.fst

instance (f : Frames) (index : Nat) (values : LogContext) : Decidable (f.Accepts index values) :=
  inferInstanceAs (Decidable (_ ∧ _))

/-- The bindings on the way to a logger. -/
def chain (f : Frames) (index : Nat) : List (Nat × LogContext) :=
  f.chains[index]?.getD []

/-- The frames after a step. -/
def after (f : Frames) : LogStep → Frames
  | .log .. => f
  | .bind index values =>
    if f.Accepts index values then
      { f with chains := f.chains ++ [f.chain index ++ [(f.chains.length, values)]] }
    else f
  | .enter index values =>
    if f.Accepts index values then { f with scopes := (index, values) :: f.scopes } else f
  | .leave => { f with scopes := f.scopes.tail }

/-- The frames after a session. -/
def run (f : Frames) (steps : List LogStep) : Frames :=
  steps.foldl after f

/-- The values of the open scopes of a logger, the outermost first. -/
def inScope (scopes : List (Nat × LogContext)) (index : Nat) : LogContext :=
  (scopes.reverse.filter fun scope => scope.1 == index).flatMap Prod.snd

/-- The values that are bound to a logger, the first binding first. -/
def bound (chain : List (Nat × LogContext)) : LogContext :=
  chain.flatMap Prod.snd

/-- A logger with bindings and scopes. -/
def logger (scopes : List (Nat × LogContext)) (index : Nat) (chain : List (Nat × LogContext)) :
    Logger :=
  ⟨putEntries [] (bound chain), putEntries [] (inScope scopes index)⟩

/-- The open scopes, each with what its logger had in scope before it. -/
def opened : List (Nat × LogContext) → List (Nat × LogContext)
  | [] => []
  | (index, _) :: outer => (index, putEntries [] (inScope outer index)) :: opened outer

/-- The state of loggers with such frames. -/
def state (s : LogState) (f : Frames) : LogState :=
  { s with loggers := f.chains.mapIdx (logger f.scopes), opened := opened f.scopes }

/-- The open scopes are those of loggers that there are. -/
def AreInside (f : Frames) : Prop :=
  ∀ scope ∈ f.scopes, scope.1 < f.chains.length

variable {f : Frames} {index : Nat} {values : LogContext}

theorem inScope_cons (scope : Nat × LogContext) (outer : List (Nat × LogContext)) (index : Nat) :
    inScope (scope :: outer) index =
      inScope outer index ++ if scope.1 = index then scope.2 else [] := by
  rw [inScope, List.reverse_cons, List.filter_append, List.flatMap_append]
  by_cases hindex : scope.1 = index
  · simp [inScope, hindex]
  · simp [inScope, hindex]

/-- What the scope of a logger sets comes behind what outer scopes set. -/
theorem inScope_cons_self (outer : List (Nat × LogContext)) :
    inScope ((index, values) :: outer) index = inScope outer index ++ values := by
  rw [inScope_cons, if_pos rfl]

/-- The scope of another logger sets nothing for this one. -/
theorem inScope_cons_of_ne {scope : Nat × LogContext} (h : scope.1 ≠ index)
    (outer : List (Nat × LogContext)) : inScope (scope :: outer) index = inScope outer index := by
  rw [inScope_cons, if_neg h, List.append_nil]

theorem inScope_eq_nil {scopes : List (Nat × LogContext)} (h : ∀ scope ∈ scopes, scope.1 ≠ index) :
    inScope scopes index = [] := by
  induction scopes with
  | nil => rfl
  | cons scope outer ih =>
    rw [List.forall_mem_cons] at h
    rw [inScope_cons_of_ne h.1, ih h.2]

theorem length_opened (scopes : List (Nat × LogContext)) :
    (opened scopes).length = scopes.length := by
  induction scopes with
  | nil => rfl
  | cons scope outer ih => rw [opened, List.length_cons, List.length_cons, ih]

/-- Entries are put in one list after the other. -/
theorem putEntries_snoc (entries values : LogContext) :
    putEntries (putEntries [] entries) values = putEntries [] (entries ++ values) :=
  (putEntries_updates [] entries values).symm

/-! ## What a step does -/

section

variable (s : LogState)

/-- A logger of the session is the one that its chain and the open scopes give. -/
theorem loggers_getElem? (f : Frames) (i : Nat) :
    (f.state s).loggers[i]? = f.chains[i]?.map (logger f.scopes i) :=
  List.getElem?_mapIdx

/-- A logger that was made is found. -/
theorem loggerAt_of_some {chain : List (Nat × LogContext)} (h : f.chains[index]? = some chain) :
    (f.state s).loggerAt index = .ok (logger f.scopes index chain) := by
  rw [LogState.loggerAt, loggers_getElem?, h]
  rfl

/-- A logger that was not made is missing. -/
theorem loggerAt_of_none (h : f.chains[index]? = none) :
    (f.state s).loggerAt index = .error .missing := by
  rw [LogState.loggerAt, loggers_getElem?, h]
  rfl

theorem checkNames_self (values : LogContext) :
    LogState.checkNames ["self"] values =
      if "self" ∈ values.map Prod.fst then .error .takenName else .ok () := by
  rw [LogState.checkNames_eq]
  simp only [List.mem_singleton, exists_eq_left]

/-- What is done with a logger that values are accepted for. -/
theorem access_ok (h : f.Accepts index values) (next : Logger → Except LogFailure LogState) :
    (do
      let logger ← (f.state s).loggerAt index
      LogState.checkNames ["self"] values
      next logger) = next (logger f.scopes index (f.chain index)) := by
  have hchain : f.chains[index]? = some (f.chain index) := by
    rw [chain, List.getElem?_eq_getElem h.1]
    rfl
  rw [loggerAt_of_some s hchain, checkNames_self, if_neg h.2]
  rfl

/-- Where values are not accepted, nothing is done. -/
theorem access_fails (h : ¬ f.Accepts index values) :
    ∃ e, ∀ next : Logger → Except LogFailure LogState,
      (do
        let logger ← (f.state s).loggerAt index
        LogState.checkNames ["self"] values
        next logger) = .error e := by
  by_cases hindex : index < f.chains.length
  · have hself : "self" ∈ values.map Prod.fst := not_not.1 fun hself => h ⟨hindex, hself⟩
    refine ⟨.takenName, fun next => ?_⟩
    rw [loggerAt_of_some s (List.getElem?_eq_getElem hindex), checkNames_self, if_pos hself]
    rfl
  · refine ⟨.missing, fun next => ?_⟩
    rw [loggerAt_of_none s (List.getElem?_eq_none (Nat.le_of_not_lt hindex))]
    rfl

/-- Putting values in scope of a logger is opening a scope, and bringing back what was there is
closing it. -/
theorem setScoped_loggers (chains : List (List (Nat × LogContext)))
    {scopes scopes' : List (Nat × LogContext)} {index : Nat}
    (h : ∀ i, i ≠ index → inScope scopes' i = inScope scopes i) :
    LogState.setScoped (chains.mapIdx (logger scopes)) index
      (putEntries [] (inScope scopes' index)) = chains.mapIdx (logger scopes') := by
  refine List.ext_getElem? fun i => ?_
  rw [LogState.setScoped, List.getElem?_modify, List.getElem?_mapIdx, List.getElem?_mapIdx,
    Option.map_eq_map, Option.map_map]
  refine congrArg (fun g => chains[i]?.map g) (funext fun chain => ?_)
  by_cases hi : index = i
  · subst hi
    simp [logger]
  · simp [logger, hi, h i (Ne.symm hi)]

/-- Binding that is accepted makes the logger that the frames describe. -/
theorem bind_state (hinside : f.AreInside) (h : f.Accepts index values) :
    (f.state s).bind index values = .ok ((f.after (.bind index values)).state s) := by
  have hnew : logger f.scopes f.chains.length (f.chain index ++ [(f.chains.length, values)]) =
      ⟨putEntries (putEntries [] (bound (f.chain index))) values, []⟩ := by
    have hnone : inScope f.scopes f.chains.length = [] :=
      inScope_eq_nil fun scope hscope => Nat.ne_of_lt (hinside scope hscope)
    rw [logger, hnone, putEntries_snoc, bound, List.flatMap_append, List.flatMap_singleton]
    rfl
  refine (access_ok s h _).trans ?_
  rw [after, if_pos h, state, state, List.mapIdx_concat, hnew]
  rfl

/-- Entering that is accepted opens the scope that the frames describe. -/
theorem enter_state (h : f.Accepts index values) :
    (f.state s).enter index values = .ok ((f.after (.enter index values)).state s) := by
  have hothers : ∀ i, i ≠ index → inScope ((index, values) :: f.scopes) i = inScope f.scopes i :=
    fun i hi => inScope_cons_of_ne hi.symm f.scopes
  refine (access_ok s h _).trans ?_
  rw [after, if_pos h, state, state, ← setScoped_loggers f.chains hothers, inScope_cons_self,
    ← putEntries_snoc]
  rfl

/-- Leaving gives the logger of the innermost scope what it had before. -/
theorem leave_state (scope : Nat × LogContext) (outer : List (Nat × LogContext))
    (chains : List (List (Nat × LogContext))) :
    (state s ⟨chains, scope :: outer⟩).leave = .ok (state s ⟨chains, outer⟩) := by
  have hothers : ∀ i, i ≠ scope.1 → inScope outer i = inScope (scope :: outer) i :=
    fun i hi => (inScope_cons_of_ne hi.symm outer).symm
  rw [state, state, ← setScoped_loggers chains hothers]
  rfl

/-- A step does to the loggers what it does to the frames. -/
theorem state_after (hinside : f.AreInside) (step : LogStep) :
    (f.state s).after step = (f.after step).state s := by
  cases step with
  | log => rfl
  | bind index values =>
    by_cases h : f.Accepts index values
    · rw [LogState.after, bind_state s hinside h]
      rfl
    · obtain ⟨e, he⟩ := access_fails s h
      have hbind : (f.state s).bind index values = .error e := he _
      rw [LogState.after, hbind, after, if_neg h]
      rfl
  | enter index values =>
    by_cases h : f.Accepts index values
    · rw [LogState.after, enter_state s h]
      rfl
    · obtain ⟨e, he⟩ := access_fails s h
      have henter : (f.state s).enter index values = .error e := he _
      rw [LogState.after, henter, after, if_neg h]
      rfl
  | leave =>
    obtain ⟨chains, scopes⟩ := f
    cases scopes with
    | nil => rfl
    | cons scope outer =>
      rw [LogState.after, leave_state]
      rfl

end

/-- A step leaves the chains as they are or adds the one of a new logger. -/
theorem chains_after (f : Frames) (step : LogStep) :
    (f.after step).chains = f.chains ∨ ∃ index values, index < f.chains.length ∧
      (f.after step).chains = f.chains ++ [f.chain index ++ [(f.chains.length, values)]] := by
  cases step with
  | bind index values =>
    by_cases haccepts : f.Accepts index values
    · exact .inr ⟨index, values, haccepts.1, by rw [after, if_pos haccepts]⟩
    · exact .inl (by rw [after, if_neg haccepts])
  | enter index values =>
    rw [after]
    split <;> exact .inl rfl
  | _ => exact .inl rfl

/-- A step keeps the chains of the loggers that were made before. -/
theorem chains_prefix_after (f : Frames) (step : LogStep) : f.chains <+: (f.after step).chains := by
  rcases chains_after f step with hsame | ⟨index, values, -, hnew⟩
  · exact hsame ▸ List.prefix_rfl
  · rw [hnew]
    exact List.prefix_append _ _

/-- A step opens scopes only for loggers that were made. -/
theorem areInside_after (h : f.AreInside) (step : LogStep) : (f.after step).AreInside := by
  cases step with
  | log => exact h
  | bind index values =>
    rw [after]
    split
    · intro scope hscope
      rw [List.length_append]
      exact Nat.lt_add_right _ (h scope hscope)
    · exact h
  | enter index values =>
    rw [after]
    split
    · rename_i haccepts
      exact List.forall_mem_cons.2 ⟨haccepts.1, h⟩
    · exact h
  | leave => exact fun scope hscope => h scope (List.mem_of_mem_tail hscope)

/-- A scope is open after a step as long as the stack is not lower than it. -/
theorem suffix_after {base : List (Nat × LogContext)} (h : base <:+ f.scopes) {step : LogStep}
    (hlength : base.length ≤ (f.after step).scopes.length) : base <:+ (f.after step).scopes := by
  cases step with
  | log => exact h
  | bind index values =>
    rw [after]
    split <;> exact h
  | enter index values =>
    rw [after]
    split
    · exact h.trans (List.suffix_cons _ _)
    · exact h
  | leave => exact List.suffix_of_suffix_length_le h (List.tail_suffix _) hlength

/-- Every binding on the way to a logger made a logger whose own chain ends with it. -/
def AreBoundFrom (f : Frames) : Prop :=
  ∀ chain ∈ f.chains, ∀ made ∈ chain, ∃ earlier, f.chains[made.1]? = some (earlier ++ [made]) ∧
    earlier ++ [made] <+: chain

/-- A step binds loggers only from those that were made. -/
theorem areBoundFrom_after (h : f.AreBoundFrom) (step : LogStep) :
    (f.after step).AreBoundFrom := by
  -- The logger of a binding keeps its chain.
  have hold : ∀ chain ∈ f.chains, ∀ made ∈ chain, ∃ earlier,
      (f.after step).chains[made.1]? = some (earlier ++ [made]) ∧ earlier ++ [made] <+: chain := by
    intro chain hchain made hmade
    obtain ⟨earlier, hearlier, hprefix⟩ := h chain hchain made hmade
    obtain ⟨more, hmore⟩ := chains_prefix_after f step
    obtain ⟨hlt, -⟩ := List.getElem?_eq_some_iff.1 hearlier
    exact ⟨earlier, by rw [← hmore, List.getElem?_append_left hlt, hearlier], hprefix⟩
  intro chain hchain made hmade
  rcases chains_after f step with hsame | ⟨index, values, hindex, hnew⟩
  · exact hold chain (hsame ▸ hchain) made hmade
  · rw [hnew, List.mem_append, List.mem_singleton] at hchain
    rcases hchain with hchain | rfl
    · exact hold chain hchain made hmade
    · rcases List.mem_append.1 hmade with hmade | hmade
      · have hmem : f.chain index ∈ f.chains := by
          rw [Frames.chain, List.getElem?_eq_getElem hindex]
          exact List.getElem_mem hindex
        obtain ⟨earlier, hearlier, hprefix⟩ := hold _ hmem made hmade
        exact ⟨earlier, hearlier, hprefix.trans (List.prefix_append _ _)⟩
      · obtain rfl := List.mem_singleton.1 hmade
        refine ⟨f.chain index, ?_, List.prefix_rfl⟩
        rw [hnew, List.getElem?_concat_length]

/-! ## Sessions -/

/-- The loggers of a session have the state that its frames describe. -/
theorem state_run (s : LogState) : ∀ {f : Frames} (steps : List LogStep), f.AreInside →
    (f.state s).run steps = (f.run steps).state s
  | _, [], _ => rfl
  | f, step :: steps, h => by
    show ((f.state s).after step).run steps = _
    rw [state_after s h, state_run s steps (areInside_after h step)]
    rfl

theorem areInside_run : ∀ {f : Frames} (steps : List LogStep), f.AreInside → (f.run steps).AreInside
  | _, [], h => h
  | _, step :: steps, h => areInside_run steps (areInside_after h step)

theorem areBoundFrom_run : ∀ {f : Frames} (steps : List LogStep), f.AreBoundFrom →
    (f.run steps).AreBoundFrom
  | _, [], h => h
  | _, step :: steps, h => areBoundFrom_run steps (areBoundFrom_after h step)

/-- A session keeps the chains of the loggers that were made before. -/
theorem chains_prefix_run : ∀ (f : Frames) (steps : List LogStep), f.chains <+: (f.run steps).chains
  | _, [] => List.prefix_rfl
  | f, step :: steps => (chains_prefix_after f step).trans (chains_prefix_run (f.after step) steps)

/-- What is open before a session is open at its end, as long as the stack never becomes lower. -/
theorem scopes_suffix_run (f : Frames) : ∀ steps : List LogStep,
    (∀ earlier, earlier <+: steps → f.scopes.length ≤ (f.run earlier).scopes.length) →
      f.scopes <:+ (f.run steps).scopes := by
  intro steps
  induction steps using List.reverseRecOn with
  | nil => exact fun _ => List.suffix_rfl
  | append_singleton steps step ih =>
    intro h
    have hbefore := ih fun earlier hearlier => h earlier (hearlier.trans (List.prefix_append _ _))
    have hlength := h _ List.prefix_rfl
    rw [run, List.foldl_append] at hlength ⊢
    exact suffix_after hbefore hlength

/-- Closing a scope after what was nested in it brings back what was open before it. -/
theorem leave_run (s : LogState) {f : Frames} (hinside : f.AreInside) (scope : Nat × LogContext)
    {outer : List (Nat × LogContext)} (hscopes : f.scopes = scope :: outer) {steps : List LogStep}
    (h : (f.state s).ClosesItsOwn steps) :
    ((f.state s).run steps).leave = .ok (state s ⟨(f.run steps).chains, outer⟩) := by
  have hlength (earlier : List LogStep) :
      ((f.state s).run earlier).opened.length = (f.run earlier).scopes.length := by
    rw [state_run s earlier hinside]
    exact length_opened _
  have hbefore : (f.state s).opened.length = f.scopes.length := length_opened _
  have hsuffix : f.scopes <:+ (f.run steps).scopes :=
    scopes_suffix_run f steps fun earlier hearlier => by
      rw [← hlength, ← hbefore]
      exact h.1 earlier hearlier
  have hsame : (f.run steps).scopes = scope :: outer := by
    rw [← hscopes]
    refine (hsuffix.eq_of_length ?_).symm
    rw [← hlength, ← hbefore]
    exact h.2.symm
  have hframes : f.run steps = ⟨(f.run steps).chains, scope :: outer⟩ := by rw [← hsame]
  rw [state_run s steps hinside, hframes, leave_state]

/-- A logger is another one or is bound from it, perhaps in several steps. -/
def IsBoundFrom (f : Frames) (index other : Nat) : Prop :=
  ∃ chain earlier, f.chains[index]? = some chain ∧ f.chains[other]? = some earlier ∧
    earlier <+: chain

/-- What is bound to a logger comes from the bindings that made it or a logger that it is bound
from. -/
theorem mem_bound (h : f.AreBoundFrom) {chain : List (Nat × LogContext)}
    (hchain : f.chains[index]? = some chain) {e : String × LogValue} (he : e ∈ bound chain) :
    ∃ made ∈ chain, e ∈ made.2 ∧ f.IsBoundFrom index made.1 := by
  obtain ⟨made, hmade, he⟩ := List.mem_flatMap.1 he
  obtain ⟨earlier, hearlier, hprefix⟩ := h chain (List.mem_of_getElem? hchain) made hmade
  exact ⟨made, hmade, he, chain, earlier ++ [made], hchain, hearlier, hprefix⟩

/-- What is set in scope was set by an open scope of the logger. -/
theorem mem_inScope {scopes : List (Nat × LogContext)} {e : String × LogValue}
    (he : e ∈ inScope scopes index) : ∃ scope ∈ scopes, scope.1 = index ∧ e ∈ scope.2 := by
  obtain ⟨scope, hscope, he⟩ := List.mem_flatMap.1 he
  rw [List.mem_filter, List.mem_reverse, beq_iff_eq] at hscope
  exact ⟨scope, hscope.1, hscope.2, he⟩

end Frames

/-! ## Records -/

namespace LogState

open Frames

variable (s : LogState) {f : Frames} {index : Nat} {chain : List (Nat × LogContext)}

/-- The values of a line are a merge of what is bound, what is in scope and what is handed over. -/
theorem combined_isMerge (scopes : List (Nat × LogContext)) (index : Nat)
    (chain : List (Nat × LogContext)) (values : LogContext) :
    IsMerge (Logger.combined (logger scopes index chain) values)
      (bound chain ++ inScope scopes index ++ values) := by
  have hbound := (putEntries_isMerge (bound chain)).nodup
  have hnone : (([] : LogContext).map Prod.fst).Nodup := List.nodup_nil
  have hcombined : Logger.combined (logger scopes index chain) values =
      putEntries [] (bound chain ++ inScope scopes index ++ values) := by
    rw [Logger.combined, logger, putEntries_merged hnone, putEntries_merged hbound,
      putEntries_snoc, putEntries_snoc]
  rw [hcombined]
  exact putEntries_isMerge _

/-- The context of a record is a merge of the values under the keys of a record. -/
theorem contextOf_isMerge (values : LogContext) :
    IsMerge (contextOf values)
      ((values.filter fun e => e.1 != "exc_info").map fun e => (contextKey e.1, e.2)) :=
  putEntries_isMerge _

/-- What a call writes through a logger that there is. -/
theorem log_state (hchain : f.chains[index]? = some chain) (level : LogLevel) (message : String)
    (values : LogContext) :
    (f.state s).log index level message values =
      if ∃ key ∈ logParameters, key ∈ values.map Prod.fst then .error .takenName
      else if level.rank < s.level.rank then .ok ""
      else (s.written level
        (s.recordOf (logger f.scopes index chain) level message values)).mapError .record := by
  rw [log, loggerAt_of_some s hchain, checkNames_eq]
  split <;> rfl

/-- Closing a scope after what was nested in it leaves the loggers that there were before it as they
were, and the same scopes are open. -/
theorem leave_restores (hinside : f.AreInside) {values : LogContext} {entered : LogState}
    (henter : (f.state s).enter index values = .ok entered) {inner : List LogStep}
    (hinner : entered.ClosesItsOwn inner) :
    ∃ left, (entered.run inner).leave = .ok left ∧ left.opened = (f.state s).opened ∧
      (f.state s).loggers <+: left.loggers := by
  have haccepts : f.Accepts index values := by
    by_contra h
    obtain ⟨e, he⟩ := access_fails s h
    cases (he _).symm.trans henter
  rw [enter_state s haccepts] at henter
  obtain rfl := Except.ok.inj henter
  have hafter : f.after (.enter index values) = ⟨f.chains, (index, values) :: f.scopes⟩ := by
    rw [Frames.after, if_pos haccepts]
  have hleave := leave_run s (areInside_after hinside (.enter index values)) (index, values)
    (congrArg Frames.scopes hafter) hinner
  refine ⟨_, hleave, rfl, ?_⟩
  obtain ⟨more, hmore⟩ := chains_prefix_run (f.after (.enter index values)) inner
  rw [congrArg Frames.chains hafter] at hmore
  show f.chains.mapIdx (logger f.scopes) <+: List.mapIdx (logger f.scopes) _
  rw [← hmore, List.mapIdx_append]
  exact List.prefix_append _ _

/-- What loggers that are bound from one another carry in any session. A call writes a record with
the merge of the values that are bound on the way to its logger, those of the scopes of the logger
that are open, the outermost first, and its own; what is said about an exception is taken out, and
what has a reserved name is merged under another one. These values come from the call, from scopes
of the logger, or from what was bound to it or to a logger that it is bound from. A scope that is
closed after what is nested in it leaves every logger that there was before as it was. -/
theorem log_run (name : String) (settings : LogSettings) (steps : List LogStep) :
    let s := (start name settings).run steps
    let f := Frames.run {} steps
    (∀ index level message values, f.chains[index]? = none →
      s.log index level message values = .error .missing) ∧
    (∀ index chain level message values, f.chains[index]? = some chain →
      ∃ combined context,
        IsMerge combined (bound chain ++ inScope f.scopes index ++ values) ∧
        IsMerge context
          ((combined.filter fun e => e.1 != "exc_info").map fun e => (contextKey e.1, e.2)) ∧
        (s.log index level message values =
          if ∃ key ∈ logParameters, key ∈ values.map Prod.fst then .error .takenName
          else if level.rank < settings.level.rank then .ok ""
          else ((start name settings).written level
            { name := .text name, level := .text level.name, message := .text message,
              trace := traceOf combined, context }).mapError .record) ∧
        ∀ e ∈ combined, e ∈ values ∨ (∃ scope ∈ f.scopes, scope.1 = index ∧ e ∈ scope.2) ∨
          ∃ made ∈ chain, e ∈ made.2 ∧ f.IsBoundFrom index made.1) ∧
    (∀ index values entered inner, s.enter index values = .ok entered →
      entered.ClosesItsOwn inner →
        ∃ left, (entered.run inner).leave = .ok left ∧ left.opened = s.opened ∧
          s.loggers <+: left.loggers) := by
  intro s f
  have hstart : ({} : Frames).AreInside := fun scope hscope => absurd hscope List.not_mem_nil
  have hinside : f.AreInside := areInside_run steps hstart
  have hboundFrom : f.AreBoundFrom := by
    refine areBoundFrom_run steps fun chain hchain made hmade => ?_
    obtain rfl := List.mem_singleton.1 hchain
    cases hmade
  have hs : s = f.state (start name settings) :=
    state_run (start name settings) steps hstart
  rw [hs]
  refine ⟨fun index level message values hnone => ?_,
    fun index chain level message values hchain => ?_,
    fun index values entered inner henter hinner => leave_restores _ hinside henter hinner⟩
  · rw [log, loggerAt_of_none _ hnone]
    rfl
  · have hmerge := combined_isMerge f.scopes index chain values
    refine ⟨_, _, hmerge, contextOf_isMerge _, log_state _ hchain level message values,
      fun e he => ?_⟩
    rcases List.mem_append.1 (hmerge.mem he) with hbefore | hvalues
    · rcases List.mem_append.1 hbefore with hbound | hscope
      · exact .inr (.inr (mem_bound hboundFrom hchain hbound))
      · exact .inr (.inl (mem_inScope hscope))
    · exact .inl hvalues

end LogState

end FormSchema
