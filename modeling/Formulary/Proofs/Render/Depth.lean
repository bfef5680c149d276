import Formulary.Proofs.Render.Visit

/-!
# The depth limit

A tree that is rendered under a growing depth limit is refused up to some limit and has one and the
same result from then on. The limit is at most the height of the tree, and when the result is markup
it is the number of levels that are visited (`render_threshold`).

* `Threshold` says this of a computation that is given for every limit and every room left;
* `Threshold.bind_ok`, `Threshold.bind_error` and `HasThreshold.mapM` carry it over to computations
  that go on with others, whichever failure comes first;
* `HasThreshold.deeper` goes one level down.
-/

namespace Formulary

/-- A computation under every depth limit and with every room left. -/
abbrev Limited (α : Type) := Nat → Nat → Run RenderError α

variable {α β : Type}

/-- With less than so much room the limit is exceeded; with at least as much the run is always the
same, and fails for other reasons if it fails. -/
structure Threshold (f : Limited α) (least : Nat) (run : Run RenderError α) : Prop where
  below : ∀ limit room, room < least → (f limit room).outcome = .error (.depthExceeded limit)
  above : ∀ limit room, least ≤ room → f limit room = run
  proper : ∀ limit, run.outcome ≠ .error (.depthExceeded limit)

/-- There is a threshold up to `height`, and it is `visited` when there is a result. -/
def HasThreshold (f : Limited α) (height visited : Nat) : Prop :=
  ∃ least run, Threshold f least run ∧ least ≤ height ∧
    ∀ value, run.outcome = .ok value → least = visited

theorem Threshold.const {run : Run RenderError α}
    (h : ∀ limit, run.outcome ≠ .error (.depthExceeded limit)) :
    Threshold (fun _ _ => run) 0 run where
  below _ _ hRoom := absurd hRoom (Nat.not_lt_zero _)
  above _ _ _ := rfl
  proper := h

theorem Threshold.bind_error {f : Limited α} {least : Nat} {run : Run RenderError α}
    (h : Threshold f least run) {error : RenderError} (hRun : run.outcome = .error error)
    (g : Nat → Nat → α → Run RenderError β) :
    Threshold (fun limit room => f limit room >>= g limit room) least
      ⟨run.notices, .error error⟩ where
  below limit room hRoom := by rw [Run.bind_of_error (h.below limit room hRoom)]
  above limit room hRoom := by rw [h.above limit room hRoom, Run.bind_of_error hRun]
  proper limit hOutcome := by
    cases hOutcome
    exact h.proper limit hRun

/-- A result is followed by the next computation; both need their room. -/
theorem Threshold.bind_ok {f : Limited α} {least later : Nat} {run : Run RenderError α}
    (h : Threshold f least run) {value : α} (hRun : run.outcome = .ok value)
    {g : Nat → Nat → α → Run RenderError β} {next : Run RenderError β}
    (hNext : Threshold (fun limit room => g limit room value) later next) :
    Threshold (fun limit room => f limit room >>= g limit room) (max least later)
      ⟨run.notices ++ next.notices, next.outcome⟩ where
  below limit room hRoom := by
    by_cases hFirst : room < least
    · rw [Run.bind_of_error (h.below limit room hFirst)]
    · have hSecond : room < later := by omega
      rw [h.above limit room (Nat.not_lt.mp hFirst), Run.outcome_bind_of_ok hRun]
      exact hNext.below limit room hSecond
  above limit room hRoom := by
    have hSecond : g limit room value = next := hNext.above limit room (by omega)
    rw [h.above limit room (by omega), Run.bind_of_ok hRun, hSecond]
  proper := hNext.proper

namespace HasThreshold

theorem const {run : Run RenderError α}
    (h : ∀ limit, run.outcome ≠ .error (.depthExceeded limit)) :
    HasThreshold (fun _ _ => run) 0 0 :=
  ⟨0, run, .const h, Nat.le_refl 0, fun _ _ => rfl⟩

theorem error {run : Run RenderError α} {error : RenderError} (hRun : run.outcome = .error error)
    (h : ∀ limit, error ≠ .depthExceeded limit) (height visited : Nat) :
    HasThreshold (fun _ _ => run) height visited := by
  refine ⟨0, run, .const fun limit hLimit => ?_, Nat.zero_le height, fun value hValue => ?_⟩
  · exact h limit (Except.error.inj (hRun.symm.trans hLimit))
  · cases hRun.symm.trans hValue

theorem mono {f : Limited α} {height height' visited : Nat} (h : HasThreshold f height visited)
    (hLe : height ≤ height') : HasThreshold f height' visited := by
  obtain ⟨least, run, hFirst, hLeast, hVisited⟩ := h
  exact ⟨least, run, hFirst, Nat.le_trans hLeast hLe, hVisited⟩

theorem bind {f : Limited α} {height visited height' visited' : Nat}
    (h : HasThreshold f height visited) {g : Nat → Nat → α → Run RenderError β}
    (hNext : ∀ value, HasThreshold (fun limit room => g limit room value) height' visited') :
    HasThreshold (fun limit room => f limit room >>= g limit room) (max height height')
      (max visited visited') := by
  obtain ⟨least, run, hFirst, hLe, hVisited⟩ := h
  cases hRun : run.outcome with
  | error error =>
    refine ⟨least, _, hFirst.bind_error hRun g, by omega, fun value hValue => ?_⟩
    cases hValue
  | ok value =>
    obtain ⟨later, next, hSecond, hLe', hVisited'⟩ := hNext value
    refine ⟨max least later, _, hFirst.bind_ok hRun hSecond, by omega, fun result hResult => ?_⟩
    rw [hVisited value hRun, hVisited' result hResult]

/-- What follows needs no room when it renders nothing. -/
theorem andThen {f : Limited α} {height visited : Nat} (h : HasThreshold f height visited)
    {next : α → Run RenderError β}
    (hNext : ∀ value limit, (next value).outcome ≠ .error (.depthExceeded limit)) :
    HasThreshold (fun limit room => f limit room >>= next) height visited := by
  have hLater : ∀ value, HasThreshold (fun _ _ => next value) 0 0 :=
    fun value => const (hNext value)
  have hBoth := h.bind hLater
  rw [Nat.max_zero, Nat.max_zero] at hBoth
  exact hBoth

/-- A list of computations needs the room of all of them that run. -/
theorem mapM {ι : Type} {f : ι → Limited α} {height visited : ι → Nat} {items : List ι}
    (h : ∀ item ∈ items, HasThreshold (f item) (height item) (visited item)) :
    HasThreshold (fun limit room => items.mapM fun item => f item limit room) (peak height items)
      (peak visited items) := by
  induction items with
  | nil => exact const fun limit hError => nomatch hError
  | cons item rest ih =>
    have hRest := ih fun other hOther => h other (List.mem_cons_of_mem _ hOther)
    simp only [List.mapM_cons, peak_cons]
    refine (h item List.mem_cons_self).bind fun value => ?_
    exact hRest.andThen fun values limit hError => nomatch hError

/-- One level takes one from the room. -/
theorem deeper {f g : Limited α} {height visited : Nat} (h : HasThreshold g height visited)
    (hNone : ∀ limit, f limit 0 = .fail (.depthExceeded limit))
    (hSome : ∀ limit room, f limit (room + 1) = g limit room) :
    HasThreshold f (height + 1) (visited + 1) := by
  obtain ⟨least, run, hInner, hLe, hVisited⟩ := h
  refine ⟨least + 1, run, ⟨fun limit room hRoom => ?_, fun limit room hRoom => ?_, hInner.proper⟩,
    Nat.succ_le_succ hLe, fun value hValue => congrArg (· + 1) (hVisited value hValue)⟩
  · cases room with
    | zero => rw [hNone]; rfl
    | succ room => rw [hSome, hInner.below limit room (Nat.lt_of_succ_lt_succ hRoom)]
  · cases room with
    | zero => exact absurd hRoom (Nat.not_succ_le_zero _)
    | succ room => rw [hSome, hInner.above limit room (Nat.le_of_succ_le_succ hRoom)]

end HasThreshold

/-! ## Rendering under every limit -/

/-- The settings with another depth limit. -/
def Settings.limitedTo (settings : Settings) (limit : Nat) : Settings :=
  { settings with maxDepth := limit }

/-- A node with room for so many levels, under every limit. -/
def renderLimited (settings : Settings) (node : Node) : Limited Text :=
  fun limit room => renderWithin (settings.limitedTo limit) room node

theorem hasThreshold_fragment {settings : Settings} {arg : Node} {height visited : Nat}
    (h : HasThreshold (renderLimited settings arg) height visited) :
    HasThreshold (fun limit room => fragmentWithin (settings.limitedTo limit) room arg) height
      visited := by
  -- The limit has no part in finishing markup, so this does not depend on it.
  have hDelimited : ∀ raw limit,
      (delimited settings .inline raw).outcome ≠ .error (.depthExceeded limit) :=
    fun raw limit hError => nomatch hError
  exact h.andThen hDelimited

/-- What a plan asks for needs the room of the nodes that it asks for. -/
theorem hasThreshold_follow {settings : Settings} (node : Node) {plan : Plan}
    (h : ∀ below ∈ plan.nodes,
      HasThreshold (renderLimited settings below) below.height below.visitedHeight) :
    HasThreshold (fun limit room => plan.follow (fun run => run) (settings.limitedTo limit)
        (renderWithin (settings.limitedTo limit) room)
        (fragmentWithin (settings.limitedTo limit) room) node)
      (peak Node.height plan.nodes) (peak Node.visitedHeight plan.nodes) := by
  cases plan with
  | write markup => exact .const fun limit hError => nomatch hError
  | dump => exact .const fun limit hError => nomatch hError
  | operands nodes assemble =>
    have hMarkups : HasThreshold
        (fun limit room => nodes.mapM (renderWithin (settings.limitedTo limit) room))
        (peak Node.height nodes) (peak Node.visitedHeight nodes) := .mapM h
    exact hMarkups.andThen fun markups limit hError => nomatch hError
  | template text args =>
    have hFragments : HasThreshold
        (fun limit room => args.mapM (fragmentWithin (settings.limitedTo limit) room))
        (peak Node.height args) (peak Node.visitedHeight args) :=
      .mapM fun arg hArg => hasThreshold_fragment (h arg hArg)
    -- Neither filling a template nor its mode depends on the limit.
    have hText : ∀ (fragments : List Text) (limit : Nat),
        (pure (localize (Placeholder.fill settings.substitution fragments text)) :
          Run RenderError Text).outcome ≠ .error (.depthExceeded limit) :=
      fun fragments limit hError => nomatch hError
    simp only [Plan.follow_template]
    exact hFragments.andThen hText

theorem peak_visited_lt (node : Node) : peak Node.height node.visited < node.height := by
  have hPos := node.height_pos
  have hPeak : peak Node.height node.visited ≤ node.height - 1 := by
    refine peak_le fun below hBelow => ?_
    have := Node.height_lt_of_mem (Node.mem_of_mem_visited hBelow)
    omega
  omega

theorem hasThreshold_render (settings : Settings) (node : Node) :
    HasThreshold (renderLimited settings node) node.height node.visitedHeight := by
  induction node using Node.induction with
  | h node hChildren hArgs =>
    have hNone : ∀ limit, renderLimited settings node limit 0 = .fail (.depthExceeded limit) :=
      fun _ => rfl
    rw [Node.visitedHeight_eq, Nat.add_comm]
    refine HasThreshold.mono ?_ (Nat.succ_le_of_lt (peak_visited_lt node))
    cases hPlan : node.plan with
    | error error =>
      have hProper : ∀ limit, error ≠ .depthExceeded limit :=
        fun limit hEq => node.plan_ne_depthExceeded limit (hPlan.trans (congrArg _ hEq))
      have hFail : HasThreshold (fun _ _ => (⟨[], .error error⟩ : Run RenderError Text))
          (peak Node.height node.visited) (peak Node.visitedHeight node.visited) :=
        .error rfl hProper _ _
      refine hFail.deeper hNone fun limit room => ?_
      rw [renderLimited, renderWithin_succ, hPlan]
      rfl
    | ok plan =>
      have hNodes := Node.nodes_of_plan hPlan
      have hFollow := hasThreshold_follow node (fun below hBelow => by
        rw [hNodes] at hBelow
        exact (Node.mem_of_mem_visited hBelow).elim (hChildren below) (hArgs below))
      rw [hNodes] at hFollow
      refine hFollow.deeper hNone fun limit room => ?_
      rw [renderLimited, renderWithin_succ, hPlan]
      rfl

/-- The depth limit of a tree: every smaller limit is exceeded, and from it on the run is always the
same. It lies between one and the height of the tree, and where there is markup it is the number of
levels that are visited. -/
theorem render_threshold (settings : Settings) (node : Node) :
    ∃ least run, 1 ≤ least ∧ least ≤ node.height ∧
      (∀ limit < least,
        (render (settings.limitedTo limit) node).outcome = .error (.depthExceeded limit)) ∧
      (∀ limit, least ≤ limit → render (settings.limitedTo limit) node = run) ∧
      (∀ limit, run.outcome ≠ .error (.depthExceeded limit)) ∧
      ∀ markup, run.outcome = .ok markup → least = node.visitedHeight := by
  obtain ⟨least, run, hThreshold, hLe, hVisited⟩ := hasThreshold_render settings node
  have hPos : 1 ≤ least := by
    by_contra hZero
    have hRun := hThreshold.above 0 0 (by omega)
    refine hThreshold.proper 0 ?_
    rw [← hRun]
    rfl
  exact ⟨least, run, hPos, hLe, fun limit => hThreshold.below limit limit,
    fun limit => hThreshold.above limit limit, hThreshold.proper, hVisited⟩

end Formulary
