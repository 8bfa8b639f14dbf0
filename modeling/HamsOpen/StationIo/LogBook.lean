import HamsOpen.StationIo.Runs

/-!
# The whole history of the logs

The board with everything that it ever logged: the releases and the output edges since the start,
each with the time it was noted with. An edge is noted with a reading of the timer, which may be a
millisecond ahead of the clock of the engine.
-/

namespace HamsOpen.StationIo

/-! ### What was logged -/

/-- A reading of the timer: whether an overflow of its counter is still to be counted as a
millisecond, and the counts of 250 ns since the last overflow. -/
structure Reading where
  pending : Bool
  sub : U16
  deriving DecidableEq

/-- A release of a channel, and when it was. -/
structure NotedRelease where
  reason : Release
  chan : Ch
  time : Nat
  deriving DecidableEq

/-- An output edge, and when it was by the timer. -/
structure NotedEdge where
  edge : Edge
  reading : Reading

/-- A slot of the three arrays of the edge log. -/
structure EdgeSlot where
  pl : U8
  ms : U16
  sub : U16
  deriving DecidableEq

namespace NotedRelease

def entry (r : NotedRelease) : EventEntry :=
  ⟨r.reason.code, BitVec.ofNat 8 r.chan.val, BitVec.ofNat 16 r.time⟩

end NotedRelease

/-- An edge in the log of the engine, by its clock. -/
def Edge.entry (e : Edge) : EdgeEntry :=
  ⟨BitVec.ofNat 8 e.chan.val ||| e.level.code <<< 4, BitVec.ofNat 16 e.time⟩

namespace NotedEdge

/-- When the edge was, in milliseconds. -/
def time (e : NotedEdge) : Nat := e.edge.time + e.reading.pending.toNat

def slot (e : NotedEdge) : EdgeSlot :=
  ⟨BitVec.ofNat 8 e.edge.chan.val ||| e.edge.level.code <<< 4, BitVec.ofNat 16 e.time,
    e.reading.sub⟩

end NotedEdge

/-! ### The board with its history -/

/-- The releases of an input, the latest first. -/
def Input.released (s : Engine) (i : Input) : List (Release × Ch) :=
  (next s i).releases.take ((next s i).releases.length - s.releases.length)

/-- The input is a commit of a map that is accepted. -/
def Engine.Accepts (s : Engine) (i : Input) : Prop := i.commits ∧ s.ioMapCommit.1 = true

instance (s : Engine) : DecidablePred s.Accepts := fun _ => inferInstanceAs (Decidable (_ ∧ _))

/-- The output edges of an input, the latest first: those to the safe states, if it makes a map
valid. -/
def Input.edged (s : Engine) (i : Input) : List Edge :=
  if s.Accepts i then (next s i).settled
  else (next s i).edges.take ((next s i).edges.length - s.edges.length)

/-- The board, its edge log, and all that it logged, the latest first. -/
structure Board where
  engine : Engine
  log : RingLog 8 3 EdgeSlot
  released : List NotedRelease
  edged : List NotedEdge

namespace Board

/-- The chip and its memory at the start, with the application started. -/
def start (latch : U8) : Board where
  engine := (Engine.reset latch).appInit
  log := ⟨0, fun _ => ⟨0, 0, 0⟩⟩
  released := []
  edged := []

/-- An edge is logged, with what the timer reads then. -/
def logEdge (timer : ℕ → Reading) (e : Edge) (b : Board) : Board :=
  let noted : NotedEdge := ⟨e, timer b.edged.length⟩
  { b with
    log := b.log.push noted.slot
    edged := noted :: b.edged }

/-- The engine takes an input, and its releases are noted. -/
def take (b : Board) (i : Input) : Board :=
  let s := StationIo.next b.engine i
  { b with
    engine := s
    released := (i.released b.engine).map (fun r => ⟨r.1, r.2, s.ms⟩) ++ b.released }

/-- The board after an input. -/
def next (timer : ℕ → Reading) (b : Board) (i : Input) : Board :=
  (i.edged b.engine).foldr (logEdge timer) (b.take i)

end Board

/-- The runs of the board, where the timer reads something at each edge. -/
def board (timer : ℕ → Reading) : Machine Board Input where
  init b := ∃ latch, b = Board.start latch
  step b i := some (b.next timer i)

/-! ### What an operation writes -/

namespace Engine

variable {s t u : Engine} {c : Ch} {lvl : Level} {f : Chan → Chan} {R R' : List (Release × Ch)}
  {E E' : List Edge}

/-- What was released and driven between two states at one time, and how the logs tell of it. -/
structure Writes (R : List (Release × Ch)) (E : List Edge) (s t : Engine) : Prop where
  ms : t.ms = s.ms
  releases : t.releases = R ++ s.releases
  edges : t.edges = E ++ s.edges
  events : t.logs.events =
    R.foldr (fun r l => l.push (NotedRelease.mk r.1 r.2 s.ms).entry) s.logs.events
  log : t.logs.edges = E.foldr (fun e l => l.push e.entry) s.logs.edges

/-- Something was written, or nothing. -/
def Wrote (s t : Engine) : Prop := ∃ R E, Writes R E s t

theorem Writes.trans (h : Writes R E s t) (h' : Writes R' E' t u) :
    Writes (R' ++ R) (E' ++ E) s u where
  ms := h'.ms.trans h.ms
  releases := by rw [h'.releases, h.releases, List.append_assoc]
  edges := by rw [h'.edges, h.edges, List.append_assoc]
  events := by rw [h'.events, h.events, h.ms, List.foldr_append]
  log := by rw [h'.log, h.log, List.foldr_append]

theorem Wrote.trans (h : Wrote s t) (h' : Wrote t u) : Wrote s u := by
  obtain ⟨R, E, hw⟩ := h
  obtain ⟨R', E', hw'⟩ := h'
  exact ⟨R' ++ R, E' ++ E, hw.trans hw'⟩

/-- Nothing is written by what changes neither the clock nor the logs. -/
theorem wrote_of_eq (hms : t.ms = s.ms) (hreleases : t.releases = s.releases)
    (hedges : t.edges = s.edges) (hlogs : t.logs = s.logs) : Wrote s t :=
  ⟨[], [], hms, hreleases, hedges, congrArg Logs.events hlogs, congrArg Logs.edges hlogs⟩

theorem Wrote.refl (s : Engine) : Wrote s s := wrote_of_eq rfl rfl rfl rfl

theorem wrote_setCh : Wrote s (s.setCh c f) := wrote_of_eq rfl rfl rfl rfl

theorem wrote_logRelease (reason : Release) : Wrote s (s.logRelease reason c) :=
  ⟨[(reason, c)], [], rfl, rfl, rfl, rfl, rfl⟩

/-- A pin that is not yet at a level writes its edge. -/
theorem wrote_pinLevel : Wrote s (s.pinLevel c lvl) := by
  by_cases heq : (s.ch c).lastlvl = some lvl
  · rw [pinLevel_of_eq heq]
    exact .refl s
  · refine ⟨[], [_], pinLevel_ms, ?_, pinLevel_edges heq, ?_, ?_⟩ <;> rw [pinLevel_of_ne heq] <;>
      cases s.leaves c lvl <;> cases lvl <;> rfl

theorem wrote_forCh {f : Ch → Engine → Engine} (h : ∀ c s, Wrote s (f c s)) :
    Wrote s (s.forCh f) :=
  forCh_kept (fun c t ht => ht.trans (h c t)) (.refl s)

theorem wrote_pinSafe? (k : Option Ch) : Wrote s (s.pinSafe? k) := by
  cases k with
  | none => exact .refl s
  | some k => exact wrote_pinLevel

theorem wrote_keylineOff : Wrote s (s.keylineOff c) := (wrote_pinSafe? _).trans wrote_setCh

theorem wrote_lineOn : Wrote s (s.lineOn c) := Wrote.trans wrote_pinLevel wrote_setCh

theorem wrote_releaseChannel (reason : Release) : Wrote s (s.releaseChannel reason c) := by
  have hoff : Wrote s (((s.pinSafe c).keylineOff c).stampOff c) :=
    (Wrote.trans wrote_pinLevel wrote_keylineOff).trans wrote_setCh
  by_cases hkeyed : (s.ch c).keyed
  · rw [releaseChannel, if_pos hkeyed]
    exact hoff.trans (wrote_logRelease reason)
  · rw [releaseChannel, if_neg hkeyed]
    exact hoff

theorem wrote_ioReleaseAll (reason : Release) : Wrote s (s.ioReleaseAll reason) := by
  apply wrote_forCh
  intro c s
  split
  · exact wrote_releaseChannel reason
  · exact .refl s

theorem wrote_clearMap : Wrote s s.clearMap := by
  have hpins : Wrote s ((s.ioReleaseAll .mapCleared).forCh clearPin) := by
    apply (wrote_ioReleaseAll .mapCleared).trans
    apply wrote_forCh
    intro c s
    unfold clearPin
    split
    · exact Wrote.trans wrote_pinLevel wrote_setCh
    · exact wrote_setCh
  exact hpins.trans (wrote_of_eq rfl rfl rfl rfl)

theorem wrote_keyUp : Wrote s (s.keyUp c) := by
  have hoff : Wrote s (((s.pinSafe c).stampOff c).logRelease .host c) :=
    (Wrote.trans wrote_pinLevel wrote_setCh).trans (wrote_logRelease .host)
  unfold keyUp
  split
  · dsimp only
    split
    · exact hoff.trans wrote_setCh
    · exact hoff.trans wrote_keylineOff
  · exact .refl s

theorem wrote_keyDown : Wrote s (s.keyDown c) := by
  have hmark : Wrote s (s.markKey c) := wrote_of_eq rfl rfl rfl rfl
  unfold keyDown
  dsimp only
  split
  next k hk =>
    have hkey : Wrote s ((s.markKey c).pinActive k true) := hmark.trans wrote_pinLevel
    split
    · exact hkey.trans wrote_setCh
    · exact hkey.trans wrote_lineOn
  next => exact hmark.trans wrote_lineOn

theorem wrote_tickChan : Wrote s (s.tickChan c) := by
  have hserve : Wrote s (s.serveOff c) := by
    unfold serveOff
    split
    · exact wrote_setCh
    · exact .refl s
  have htimeout (s : Engine) : Wrote s (s.checkTimeout c) := by
    unfold checkTimeout
    split
    · exact wrote_releaseChannel .timeout
    · exact .refl s
  have hadvance (s : Engine) : Wrote s (s.advance c) := by
    unfold advance
    split
    · split
      · exact wrote_lineOn.trans (htimeout _)
      · exact htimeout s
    · exact htimeout s
    · split
      · exact wrote_keylineOff
      · exact .refl s
    · exact .refl s
  unfold tickChan
  split
  · exact hserve.trans (hadvance _)
  · exact .refl s

/-! ### What an input writes -/

theorem Loads.wrote (h : Loads s t) : Wrote s t := by
  rw [h.rest]
  exact wrote_of_eq rfl rfl rfl rfl

theorem wrote_ioKey (pin down : U8) : Wrote s (s.ioKey pin down).2 := by
  have hrefuse (why : Refusal) : Wrote s (s.refuse why).2 := wrote_of_eq rfl rfl rfl rfl
  unfold ioKey
  split
  · exact hrefuse _
  split
  · exact hrefuse _
  next c _ =>
    split
    · exact hrefuse _
    split
    · exact wrote_keyUp
    split
    · exact .refl s
    split
    · exact hrefuse _
    split
    · exact hrefuse _
    split
    · exact hrefuse _
    · exact wrote_keyDown

theorem wrote_ioHeartbeat (seq : U16) (commanded : U8) : Wrote s (s.ioHeartbeat seq commanded) := by
  unfold ioHeartbeat
  split
  · exact .refl s
  · dsimp only
    split
    · exact wrote_of_eq rfl rfl rfl rfl
    · refine Wrote.trans ?_ (wrote_ioReleaseAll _)
      exact wrote_of_eq rfl rfl rfl rfl

theorem wrote_ioTick : Wrote s s.ioTick := by
  have hlapse (s : Engine) : Wrote s s.checkLapse := by
    unfold checkLapse
    split
    · refine Wrote.trans ?_ (wrote_ioReleaseAll .hbLapse)
      exact wrote_of_eq rfl rfl rfl rfl
    · exact .refl s
  unfold ioTick
  split
  · exact .refl s
  · exact (wrote_forCh fun c s => wrote_tickChan).trans (hlapse _)

/-- A map that is accepted brings the mapped pins to their safe states; otherwise nothing is
written. -/
theorem ioMapCommit_writes : (s.ioMapCommit.1 = false ∧ Wrote s s.ioMapCommit.2) ∨
    s.ioMapCommit.1 = true ∧ ∃ t, Loads s t ∧ s.ioMapCommit.2 = t.settle := by
  have hfreed : Loads s (s.forCh fun c s => s.setCh c fun ch => { ch with owner := none }) :=
    forCh_kept (fun c _ h => h.trans (loads_owner none)) (.refl s)
  have hload := hfreed.trans (loads_commitChans (List.finRange IO_NCH))
  have hfail (t : Engine) (e : MapError) : Wrote t (t.fail e).2 := (loads_fail e).wrote
  unfold ioMapCommit
  split
  · exact .inl ⟨rfl, hfail s _⟩
  · dsimp only
    split
    next heq =>
      rw [heq] at hload
      exact .inl ⟨rfl, hload.wrote.trans (hfail _ _)⟩
    next t heq =>
      rw [heq] at hload
      split
      · exact .inl ⟨rfl, hload.wrote.trans (hfail t _)⟩
      split
      · exact .inl ⟨rfl, hload.wrote.trans (hfail t _)⟩
      · exact .inr ⟨rfl, t, hload, rfl⟩

/-- What an input writes, unless it makes a map valid: it is written at one time, after the clock
has gone on if it has. -/
theorem wrote_next {i : Input} (hi : ¬ s.Accepts i) : ∃ u, Wrote u (next s i) ∧
    u.releases = s.releases ∧ u.edges = s.edges ∧ u.logs = s.logs := by
  have hsame {t : Engine} (h : Wrote s t) : ∃ u, Wrote u t ∧
      u.releases = s.releases ∧ u.edges = s.edges ∧ u.logs = s.logs := ⟨s, h, rfl, rfl, rfl⟩
  cases i with
  | usbReset => exact hsame (wrote_ioReleaseAll _)
  | usbSuspend => exact hsame (wrote_ioReleaseAll _)
  | tick => exact ⟨{ s with ms := s.ms + 1 }, wrote_ioTick, rfl, rfl, rfl⟩
  | request bm req value index =>
    apply hsame
    simp only [next, appVendorRequest]
    split
    next hmap =>
      split
      · exact wrote_clearMap.trans (wrote_of_eq rfl rfl rfl rfl)
      split
      · exact (loads_ioMapPin _ _ _).wrote
      split
      · exact (loads_ioMapParam _ _ _).wrote
      split
      · unfold ioMapHeartbeat
        split
        · exact (loads_fail _).wrote
        split
        · exact (loads_fail _).wrote
        · exact wrote_of_eq rfl rfl rfl rfl
      split
      next hreq =>
        rcases ioMapCommit_writes (s := s) with ⟨-, hwrote⟩ | ⟨haccepted, -⟩
        · exact hwrote
        · exact absurd ⟨⟨hmap.1, hreq⟩, haccepted⟩ hi
      · exact wrote_ioKey _ _
    split
    · exact wrote_ioHeartbeat _ _
    split
    · unfold gpioSet
      dsimp only
      split
      · exact .refl s
      · exact wrote_of_eq rfl rfl rfl rfl
    · exact .refl s

/-- A commit that is accepted makes the map valid. -/
theorem next_of_accepts {i : Input} (hi : s.Accepts i) :
    ∃ t, Loads s t ∧ next s i = t.settle := by
  obtain ⟨hcommits, haccepted⟩ := hi
  cases i with
  | request bm req value index =>
    obtain ⟨rfl, rfl⟩ := hcommits
    rcases ioMapCommit_writes (s := s) with ⟨hrefused, -⟩ | ⟨-, hsettles⟩
    · rw [hrefused] at haccepted
      cases haccepted
    · exact hsettles
  | usbReset => exact hcommits.elim
  | usbSuspend => exact hcommits.elim
  | tick => exact hcommits.elim

/-- The logs after an input tell of the releases and of the edges of the input. -/
theorem next_logs (s : Engine) (i : Input) :
    (next s i).releases = i.released s ++ s.releases ∧
    (next s i).logs.events = (i.released s).foldr
      (fun r l => l.push (NotedRelease.mk r.1 r.2 (next s i).ms).entry) s.logs.events ∧
    (next s i).logs.edges = (i.edged s).foldr (fun e l => l.push e.entry) s.logs.edges := by
  have htake {α : Type} (new old : List α) :
      (new ++ old).take ((new ++ old).length - old.length) = new := by
    rw [List.length_append, Nat.add_sub_cancel, List.take_left]
  by_cases hi : s.Accepts i
  · obtain ⟨t, hloads, hnext⟩ := next_of_accepts hi
    obtain ⟨R, E, hw⟩ : Wrote { t with mapState := .valid, edges := [] }
        ({ t with mapState := .valid, edges := [] }.forCh settlePin) := by
      apply wrote_forCh
      intro c s
      unfold settlePin
      split
      · exact wrote_pinLevel
      · exact .refl s
    have hlogs : t.logs = s.logs := by rw [hloads.rest]
    have hreleases : t.releases = s.releases := by rw [hloads.rest]
    have hall : (next s i).releases = R ++ s.releases := by
      rw [hnext, ← hreleases]
      exact hw.releases
    have hreleased : i.released s = R := by
      rw [Input.released, hall, htake]
    have hedged : i.edged s = E := by
      have hall : (next s i).settled = E := by
        rw [hnext]
        exact hw.edges.trans (List.append_nil E)
      rw [Input.edged, if_pos hi, hall]
    refine ⟨by rw [hreleased, hall], ?_⟩
    rw [hreleased, hedged, hnext, ← hlogs]
    have hms : t.settle.ms = t.ms := hw.ms
    rw [hms]
    exact ⟨hw.events, hw.log⟩
  · obtain ⟨u, ⟨R, E, hw⟩, hreleases, hedges, hlogs⟩ := wrote_next hi
    have hall : (next s i).releases = R ++ s.releases := by rw [hw.releases, hreleases]
    have hreleased : i.released s = R := by
      rw [Input.released, hall, htake]
    have hedged : i.edged s = E := by
      rw [Input.edged, if_neg hi, hw.edges, hedges, htake]
    refine ⟨by rw [hreleased, hall], ?_⟩
    rw [hreleased, hedged, hw.ms, ← hlogs]
    exact ⟨hw.events, hw.log⟩

end Engine

/-! ### What the logs keep along a run -/

/-- The logs of the board keep all that it logged. -/
structure Board.Kept (b : Board) : Prop where
  releases : b.released.map (fun r => (r.reason, r.chan)) = b.engine.releases
  events : b.engine.logs.events.Holds (b.released.map NotedRelease.entry)
  log : b.log.Holds (b.edged.map NotedEdge.slot)
  edges : b.engine.logs.edges.Holds (b.edged.map fun e => e.edge.entry)

theorem Board.kept_start (latch : U8) : (Board.start latch).Kept where
  releases := rfl
  events := RingLog.holds_nil rfl
  log := RingLog.holds_nil rfl
  edges := RingLog.holds_nil rfl

/-- Some edges are logged, one after the other. -/
theorem Board.logEdges (timer : ℕ → Reading) (b : Board) (E : List Edge) :
    (E.foldr (Board.logEdge timer) b).engine = b.engine ∧
    (E.foldr (Board.logEdge timer) b).released = b.released ∧
    ((E.foldr (Board.logEdge timer) b).edged.map fun e => e.edge.entry) =
      E.map Edge.entry ++ b.edged.map fun e => e.edge.entry := by
  induction E with
  | nil => exact ⟨rfl, rfl, rfl⟩
  | cons e E ih => exact ⟨ih.1, ih.2.1, congrArg (e.entry :: ·) ih.2.2⟩

/-- The edge log keeps the edges as they are logged. -/
theorem Board.holds_logEdges {b : Board} (h : b.log.Holds (b.edged.map NotedEdge.slot))
    (timer : ℕ → Reading) (E : List Edge) :
    (E.foldr (Board.logEdge timer) b).log.Holds
      ((E.foldr (Board.logEdge timer) b).edged.map NotedEdge.slot) := by
  induction E with
  | nil => exact h
  | cons e E ih => exact ih.push (by decide) _

theorem Board.Kept.next {b : Board} (h : b.Kept) (timer : ℕ → Reading) (i : Input) :
    (b.next timer i).Kept := by
  obtain ⟨hreleases, hevents, hedges⟩ := b.engine.next_logs i
  obtain ⟨hengine, hreleased, hedged⟩ := (b.take i).logEdges timer (i.edged b.engine)
  have hlog : (b.take i).log.Holds ((b.take i).edged.map NotedEdge.slot) := h.log
  have hmoved : (b.next timer i).released.map (fun r => (r.reason, r.chan)) =
      (b.next timer i).engine.releases := by
    rw [Board.next, hengine, hreleased]
    simp only [Board.take, List.map_append, List.map_map, hreleases, ← h.releases]
    exact congrArg (· ++ _) (List.map_id _)
  refine ⟨hmoved, ?_, Board.holds_logEdges hlog timer _, ?_⟩
  · rw [Board.next, hengine, hreleased, Board.take, hevents, List.map_append, List.map_map]
    exact h.events.foldr (by decide) _ _
  · rw [Board.next, hengine, hedged, Board.take, hedges]
    exact h.edges.foldr (by decide) _ _

/-- The board after some inputs. -/
def Board.after (timer : ℕ → Reading) (is : List Input) : Board :=
  is.foldl (Board.next timer) (Board.start 0)

theorem Board.reachable_after (timer : ℕ → Reading) (is : List Input) :
    (board timer).Reachable (Board.after timer is) := by
  have hall (is : List Input) : ∀ b, (board timer).Reachable b →
      (board timer).Reachable (is.foldl (Board.next timer) b) := by
    induction is with
    | nil => exact fun _ hb => hb
    | cons i is ih => exact fun b hb => ih _ (hb.step trivial rfl)
  exact hall is _ (.init ⟨0, rfl⟩)

theorem Board.after_engine (timer : ℕ → Reading) (is : List Input) :
    (Board.after timer is).engine = Engine.after is := by
  have hall (is : List Input) : ∀ b : Board,
      (is.foldl (Board.next timer) b).engine = is.foldl StationIo.next b.engine := by
    induction is with
    | nil => exact fun _ => rfl
    | cons i is ih =>
      intro b
      have hengine : (b.next timer i).engine = StationIo.next b.engine i :=
        ((b.take i).logEdges timer _).1
      rw [List.foldl_cons, ih, hengine, List.foldl_cons]
  exact hall is _

/-- Along every run the logs keep all that the board logged. -/
theorem kept_of_reachable {timer : ℕ → Reading} {b : Board} (h : (board timer).Reachable b) :
    b.Kept := by
  refine h.invariant ?_ ?_
  · rintro b ⟨latch, rfl⟩
    exact Board.kept_start latch
  · intro b i b' hb hstep
    obtain rfl := Option.some.inj hstep
    exact hb.next timer i

end HamsOpen.StationIo
