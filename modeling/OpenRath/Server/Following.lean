import OpenRath.Server.Streams

/-!
# Streams that are followed to the end

A stream with `follow=true` ends when a round has sent nothing and the run, which is read
afterwards, is over. Events that others append between the page that came back empty and the reading
of the run are not sent, and the last event of a run is appended in the transaction that ends it.

## Main definitions

* `StreamRequest.OneStart`: the client gives one number to start from.
* `StreamRequest.FollowsLog`: what has been sent is a part of the log.
* `StreamRequest.EmptyPage`: the page after which a stream reads the run.
* `StreamRequest.SentAll`: all events after a number have been sent.

## Main results

* `StreamRequest.Streams.followsLog`: a stream follows the log in every state.
* `StreamRequest.sentAll_iff`: which streams have sent all events when they end.
-/

namespace OpenRath

open SQLite

/-! ### The log -/

/-- Whatever is called, the log of a run is only appended to. -/
theorem eventsOf_isPrefix (sha : Sha256) (calls more : List Call) (i : UUID) :
    (SQLite.after sha calls).eventsOf i <+: (SQLite.after sha (calls ++ more)).eventsOf i := by
  induction more using List.reverseRecOn with
  | nil =>
    rw [List.append_nil]
  | append_singleton more call ih =>
    refine ih.trans ?_
    rw [← List.append_assoc, after_concat]
    rcases events_perform sha call (SQLite.after sha (calls ++ more)) i with heq | ⟨e, heq⟩
    · rw [heq]
    · rw [heq]
      exact List.prefix_append _ _

theorem drop_isPrefix_drop {α : Type} {l l' : List α} (h : l <+: l') (n : ℕ) :
    l.drop n <+: l'.drop n := by
  obtain ⟨rest, rfl⟩ := h
  rw [List.drop_append]
  exact List.prefix_append _ _

namespace StreamRequest

/-! ### What has been sent -/

/-- The client gives the number to start from in the query or in the header, not in both. -/
def OneStart (r : StreamRequest) : Prop := r.after = none ∨ r.lastEventId = none

/-- What has been sent, and what is about to be, follows the number from which the stream starts in
the log. -/
def FollowsLog (log : List RunEvent) (n : ℕ) : Generator → List RunEvent → Prop
  | .initial page, sent => sent = [] ∧ page <+: log.drop n
  | .poll cursor, sent | .idle cursor _, sent => cursor = n + sent.length ∧ sent <+: log.drop n
  | .sending cursor items _, sent => cursor = n + sent.length ∧ sent ++ items <+: log.drop n
  | .finished, sent => sent <+: log.drop n

theorem FollowsLog.mono {log log' : List RunEvent} {n : ℕ} {g : Generator} {sent : List RunEvent}
    (h : FollowsLog log n g sent) (hlog : log <+: log') : FollowsLog log' n g sent := by
  have hdrop := drop_isPrefix_drop hlog n
  rcases g with page | cursor | ⟨cursor, items, emitted⟩ | ⟨cursor, emitted⟩ | _
  · exact ⟨h.1, h.2.trans hdrop⟩
  · exact ⟨h.1, h.2.trans hdrop⟩
  · exact ⟨h.1, h.2.trans hdrop⟩
  · exact ⟨h.1, h.2.trans hdrop⟩
  · exact h.trans hdrop

/-- The page after what has been sent. -/
theorem prefix_append_page {log sent : List RunEvent} {n limit : ℕ} (h : sent <+: log.drop n) :
    sent ++ (log.drop (n + sent.length)).take limit <+: log.drop n := by
  obtain ⟨rest, hrest⟩ := h
  rw [← List.drop_drop, ← hrest, List.drop_left]
  exact (List.prefix_append_right_inj sent).mpr (List.take_prefix _ _)

/-- The number of an event that is about to be sent. -/
theorem sequence_of_isPrefix {log sent items : List RunEvent} {e : RunEvent} {n : ℕ}
    (hlog : Numbered RunEvent.sequence log) (h : sent ++ e :: items <+: log.drop n) :
    e.sequence = n + sent.length + 1 := by
  have hlength := h.length_le
  rw [List.length_append, List.length_cons, List.length_drop] at hlength
  have hget := h.getElem (i := sent.length) (by simp)
  rw [List.getElem_append_right (Nat.le_refl _)] at hget
  simp only [Nat.sub_self, List.getElem_cons_zero, List.getElem_drop] at hget
  rw [hget, hlog.num_getElem]

section Course

variable {sha : Sha256} {t : Decimals} {texts : Texts} {r : StreamRequest} {i : UUID}
  {opened calls : List Call} {g : Generator} {sent : List RunEvent}

/-- With one number to start from, the generator starts where the first page does. -/
theorem acknowledged_eq_of_oneStart (hone : r.OneStart) {after limit : ℤ}
    (hcursor : r.cursor t = .ok (after, limit)) : r.acknowledged t = some after := by
  obtain ⟨hint, -, -⟩ := cursor_eq_ok_iff.mp hcursor
  rw [acknowledged, afterNumber]
  rcases hone with hafter | hheader
  · rw [hafter] at hint ⊢
    rcases hheader : r.lastEventId with _ | lastEvent
    · rw [hheader] at hint
      have hzero : t.int "0" = some after := hint
      rwa [t.int_zero] at hzero
    · have htext : t.int lastEvent = some after := by rwa [hheader] at hint
      have hne : lastEvent ≠ "" := by
        rintro rfl
        rw [t.int_empty] at htext
        cases htext
      simpa only [hne, if_false] using htext
  · rw [hheader] at hint ⊢
    rcases hafter : r.after with _ | text
    · rw [hafter] at hint
      have hzero : t.int "0" = some after := hint
      rwa [t.int_zero] at hzero
    · rwa [hafter] at hint

/-- **A stream follows the log**, from the number it starts from. -/
theorem Streams.followsLog (h : r.Streams sha t texts i opened calls g sent) (hone : r.OneStart) :
    ∃ (n : ℕ) (limit : ℤ), r.cursor t = .ok ((n : ℤ), limit) ∧
      FollowsLog ((SQLite.after sha calls).eventsOf i) n g sent := by
  have hlogged : ∀ calls, Numbered RunEvent.sequence ((SQLite.after sha calls).eventsOf i) :=
    fun calls => (logged_after sha calls i).numbered
  induction h with
  | @opened _ _ _ after limit page _ _ hcursor hpage =>
    obtain ⟨-, hnonneg, hlimit⟩ := cursor_eq_ok_iff.mp hcursor
    obtain ⟨n, rfl⟩ := Int.eq_ofNat_of_zero_le hnonneg
    refine ⟨n, limit, hcursor, rfl, ?_⟩
    have hlimit := one_le_of_pageLimit (by omega) hlimit
    obtain rfl := Except.ok.inj (hpage.symm.trans (listRunEvents_eq _ (hlogged opened) hlimit))
    exact (List.take_prefix _ _).trans (drop_isPrefix_drop (eventsOf_isPrefix sha _ _ i) n)
  | other call _ ih =>
    obtain ⟨n, limit, hcursor, hfollows⟩ := ih
    exact ⟨n, limit, hcursor, hfollows.mono (eventsOf_isPrefix sha _ _ i)⟩
  | @start _ page sent _ ih =>
    obtain ⟨n, limit, hcursor, rfl, hpage⟩ := ih
    refine ⟨n, limit, hcursor, ?_⟩
    rw [StreamRequest.start, int_generateCursor, acknowledged_eq_of_oneStart hone hcursor]
    by_cases hempty : page = []
    · simp only [hempty, if_true]
      exact ⟨by simp, List.nil_prefix⟩
    · simp only [hempty, if_false]
      exact ⟨by simp, hpage⟩
  | @page calls cursor items sent _ hpage _ ih =>
    obtain ⟨n, limit, hcursor, rfl, hsent⟩ := ih
    refine ⟨n, limit, hcursor, FollowsLog.mono ⟨rfl, ?_⟩ (eventsOf_isPrefix sha _ _ i)⟩
    rw [← Nat.cast_add] at hpage
    obtain rfl := Except.ok.inj (hpage.symm.trans (listRunEvents_eq _ (hlogged calls) (by omega)))
    exact prefix_append_page hsent
  | broken _ ih =>
    obtain ⟨n, limit, hcursor, -, hsent⟩ := ih
    exact ⟨n, limit, hcursor, hsent⟩
  | @emit _ _ e items sent _ _ ih =>
    obtain ⟨n, limit, hcursor, -, hsent⟩ := ih
    refine ⟨n, limit, hcursor, ?_, by rwa [List.append_assoc, List.singleton_append]⟩
    rw [sequence_of_isPrefix (hlogged _) hsent, List.length_append, List.length_singleton]
    omega
  | stop _ _ ih =>
    obtain ⟨n, limit, hcursor, -, hsent⟩ := ih
    exact ⟨n, limit, hcursor, by rwa [List.append_nil] at hsent⟩
  | rest _ _ ih =>
    obtain ⟨n, limit, hcursor, hcount, hsent⟩ := ih
    exact ⟨n, limit, hcursor, hcount, by rwa [List.append_nil] at hsent⟩
  | disconnect _ ih =>
    obtain ⟨n, limit, hcursor, -, hsent⟩ := ih
    exact ⟨n, limit, hcursor, hsent⟩
  | done _ _ _ ih =>
    obtain ⟨n, limit, hcursor, hfollows⟩ := ih
    exact ⟨n, limit, hcursor, (hfollows.mono (eventsOf_isPrefix sha _ _ i)).2⟩
  | again _ _ _ ih =>
    obtain ⟨n, limit, hcursor, hfollows⟩ := ih
    exact ⟨n, limit, hcursor, hfollows.mono (eventsOf_isPrefix sha _ _ i)⟩

/-- A page of the stream that was read after the history `polled` had nothing in it, and nothing has
been sent since. -/
def EmptyPage (sha : Sha256) (t : Decimals) (texts : Texts) (r : StreamRequest) (i : UUID)
    (opened calls : List Call) (cursor : ℤ) (sent : List RunEvent) (polled : List Call) : Prop :=
  ∃ clock between, calls = polled ++ ⟨.listRunEvents i cursor (some 200), clock⟩ :: between ∧
    r.Streams sha t texts i opened polled (.poll cursor) sent ∧
    (perform sha ⟨.listRunEvents i cursor (some 200), clock⟩ (SQLite.after sha polled)).1 = .ok []

/-- Before a stream reads the run without having sent anything, its page was empty. -/
theorem Streams.exists_emptyPage (h : r.Streams sha t texts i opened calls g sent) {cursor : ℤ}
    (hg : g = .idle cursor false ∨ g = .sending cursor [] false) :
    ∃ polled, r.EmptyPage sha t texts i opened calls cursor sent polled := by
  induction h with
  | opened | broken | stop | disconnect | done | again => simp at hg
  | other call _ ih =>
    obtain ⟨polled, clock, between, rfl, hpolled, hpage⟩ := ih hg
    exact ⟨polled, clock, between ++ [call], by simp, hpolled, hpage⟩
  | @start _ page _ _ _ =>
    rw [StreamRequest.start] at hg
    rcases hn : t.int r.generateCursor with _ | n
    · simp [hn] at hg
    · by_cases hempty : page = [] <;> simp [hn, hempty] at hg
  | @page polled _ _ _ clock hpage hpolled _ =>
    obtain hg | hg := hg
    · cases hg
    · cases hg
      exact ⟨polled, clock, [], rfl, hpolled, hpage⟩
  | emit => simp at hg
  | rest _ _ ih =>
    obtain hg | hg := hg
    · cases hg
      exact ih (Or.inr rfl)
    · cases hg

/-- At an empty page, the whole log from the start of the stream has been sent. -/
theorem EmptyPage.eq_drop {cursor : ℤ} {polled : List Call}
    (h : r.EmptyPage sha t texts i opened calls cursor sent polled) (hone : r.OneStart) {n : ℕ}
    {limit : ℤ} (hcursor : r.cursor t = .ok ((n : ℤ), limit)) :
    sent = ((SQLite.after sha polled).eventsOf i).drop n := by
  obtain ⟨clock, -, -, hstream, hpage⟩ := h
  obtain ⟨m, limit', hcursor', rfl, hsent⟩ := hstream.followsLog hone
  cases hcursor.symm.trans hcursor'
  have hlogged : Numbered RunEvent.sequence ((SQLite.after sha polled).eventsOf i) :=
    (logged_after sha polled i).numbered
  have hlength := (continues_of_listRunEvents hlogged (by omega) hpage).2.mp rfl
  refine hsent.eq_of_length_le ?_
  rw [List.length_drop]
  omega

/-- All events after a number have been sent, once and in order. -/
structure SentAll (log : List RunEvent) (n : ℕ) (sent : List RunEvent) : Prop where
  mem : ∀ e ∈ log, n < e.sequence → e ∈ sent
  increasing : sent.Pairwise fun e e' => e.sequence < e'.sequence

/-- The end of a log is all that follows a number in another log if and only if the events there
that follow the number are in the first one. -/
theorem sentAll_drop_iff {log log' : List RunEvent} (hlog : Numbered RunEvent.sequence log)
    (n : ℕ) : SentAll log' n (log.drop n) ↔ ∀ e ∈ log', n < e.sequence → e ∈ log := by
  constructor
  · intro h e he hlt
    exact List.mem_of_mem_drop (h.mem e he hlt)
  · refine fun h => ⟨fun e he hlt => ?_, ?_⟩
    · rw [← hlog.filter_lt n]
      exact List.mem_filter.mpr ⟨h e he hlt, decide_eq_true hlt⟩
    · exact hlog.pairwise_lt.sublist (List.drop_sublist n log)

/-- **Followed streams.** A stream that is given one number to start from, and that ends as the run
is over, has sent all events after this number, once and in order, if and only if all of them were
there already when the page was read that came back empty. -/
theorem sentAll_iff (hone : r.OneStart) {cursor : ℤ}
    (h : r.Streams sha t texts i opened calls (.idle cursor false) sent) {clock : ℕ → ClockReading}
    {run : Run} (hrun : (perform sha ⟨.getRun i, clock⟩ (SQLite.after sha calls)).1 = .ok run)
    (hover : run.status.Terminal) :
    r.Streams sha t texts i opened (calls ++ [⟨.getRun i, clock⟩]) .finished sent ∧
    (∃ polled, r.EmptyPage sha t texts i opened calls cursor sent polled) ∧
    ∃ (n : ℕ) (limit : ℤ), r.cursor t = .ok ((n : ℤ), limit) ∧
      ∀ polled, r.EmptyPage sha t texts i opened calls cursor sent polled →
        (SentAll ((SQLite.after sha (calls ++ [⟨.getRun i, clock⟩])).eventsOf i) n sent ↔
          ∀ e ∈ (SQLite.after sha (calls ++ [⟨.getRun i, clock⟩])).eventsOf i, n < e.sequence →
            e ∈ (SQLite.after sha polled).eventsOf i) := by
  obtain ⟨n, limit, hcursor, -⟩ := h.followsLog hone
  refine ⟨h.done hrun hover, h.exists_emptyPage (Or.inl rfl), n, limit, hcursor,
    fun polled hpolled => ?_⟩
  rw [hpolled.eq_drop hone hcursor]
  exact sentAll_drop_iff (logged_after sha polled i).numbered n

end Course

end StreamRequest

/-! ### A sample -/

namespace Sample

/-- The request of a client that follows the sample run and has its first two events. -/
def following : StreamRequest where
  context := some reader
  runId := some run.id
  lastEventId := none
  after := some "2"
  limit := none
  follow := some "true"

/-- The worker ends the sample run. -/
def finishing : Call :=
  ⟨.finishClaim run.id "first" 1 1 .succeeded "run.succeeded" none, clock 2⟩

/-- The texts of the identifiers of the samples do not matter. -/
def unnamed : Texts := ⟨fun _ => "", fun _ => ""⟩

theorem following_oneStart : following.OneStart := Or.inr rfl

theorem following_cursor : following.cursor decimals = .ok (2, 200) := by decide

theorem following_follows : following.follows = true := by decide

/-- The reading of a run that is over. -/
theorem exists_terminal (calls : List Call)
    (h : (perform Sample.sha ⟨.getRun run.id, clock 3⟩
      (SQLite.after Sample.sha calls)).1.toOption.any fun run => run.status.Terminal) :
    ∃ run', (perform Sample.sha ⟨.getRun run.id, clock 3⟩
      (SQLite.after Sample.sha calls)).1 = .ok run' ∧ run'.status.Terminal := by
  rcases hrun : (perform Sample.sha ⟨.getRun run.id, clock 3⟩
    (SQLite.after Sample.sha calls)).1 with e | run'
  · rw [hrun] at h
    cases h
  · rw [hrun] at h
    exact ⟨run', rfl, of_decide_eq_true h⟩

/-- The page after the second event of the sample run. -/
def nextPage : Call := ⟨.listRunEvents run.id 2 (some 200), clock 3⟩

/-- A client that has all events so far waits for more. -/
theorem following_idle : following.Streams Sample.sha decimals unnamed run.id claimed
    (claimed ++ [nextPage] ++ [nextPage]) (.idle 2 false) [] := by
  have hrun : following.run unnamed (fun k =>
      (perform Sample.sha ⟨.getRun k, clock 3⟩ (SQLite.after Sample.sha claimed)).1) =
        .ok run.id := by decide +kernel
  have hopened : following.Streams Sample.sha decimals unnamed run.id claimed
      (claimed ++ [nextPage]) (.initial []) [] :=
    .opened (List.prefix_refl _) hrun following_cursor (by decide +kernel)
  have hpoll : following.Streams Sample.sha decimals unnamed run.id claimed
      (claimed ++ [nextPage]) (.poll 2) [] := hopened.start
  exact .rest following_follows (hpoll.page (by decide +kernel))

/-- The sample run after its worker has ended it. -/
def ended : List Call := claimed ++ [finishing]

/-- A client that asks when the run is over is sent its last event. -/
theorem following_sentAll : ∃ calls sent,
    following.Streams Sample.sha decimals unnamed run.id ended calls .finished sent ∧
      sent.length = 1 ∧
      StreamRequest.SentAll ((SQLite.after Sample.sha calls).eventsOf run.id) 2 sent := by
  have hlogged := (logged_after Sample.sha ended run.id).numbered
  have hlength : (((SQLite.after Sample.sha ended).eventsOf run.id).drop 2).length = 1 := by
    decide +kernel
  obtain ⟨e, he⟩ := List.length_eq_one_iff.mp hlength
  have hnumber : (e.sequence : ℤ) = 3 := Continues.head (he ▸ hlogged.continues_drop 2)
  have hpage : (perform Sample.sha nextPage (SQLite.after Sample.sha ended)).1 = .ok [e] := by
    have hpage : (perform Sample.sha ⟨.listRunEvents run.id ((2 : ℕ) : ℤ) (some 200), clock 3⟩
        (SQLite.after Sample.sha ended)).1 = _ := listRunEvents_eq _ hlogged (by decide)
    rwa [he] at hpage
  have hmay : following.run unnamed (fun k =>
      (perform Sample.sha ⟨.getRun k, clock 3⟩ (SQLite.after Sample.sha ended)).1) =
        .ok run.id := by decide +kernel
  have hopened : following.Streams Sample.sha decimals unnamed run.id ended
      (ended ++ [nextPage]) (.initial [e]) [] :=
    .opened (List.prefix_refl _) hmay following_cursor hpage
  have hsending : following.Streams Sample.sha decimals unnamed run.id ended
      (ended ++ [nextPage]) (.sending 2 [e] false) [] := hopened.start
  obtain ⟨run', hrun, hover⟩ := exists_terminal (ended ++ [nextPage]) (by decide +kernel)
  have hpoll := ((hsending.emit).rest following_follows).again hrun fun _ => rfl
  rw [hnumber] at hpoll
  have hempty : (perform Sample.sha ⟨.listRunEvents run.id 3 (some 200), clock 3⟩
      (SQLite.after Sample.sha (ended ++ [nextPage] ++ [⟨.getRun run.id, clock 3⟩]))).1 =
        .ok [] := by decide +kernel
  have hidle := (hpoll.page hempty).rest following_follows
  obtain ⟨run'', hrun', hover'⟩ := exists_terminal
    (ended ++ [nextPage] ++ [⟨.getRun run.id, clock 3⟩] ++
      [⟨.listRunEvents run.id 3 (some 200), clock 3⟩]) (by decide +kernel)
  obtain ⟨hstream, -, n, limit, hcursor, hiff⟩ :=
    StreamRequest.sentAll_iff following_oneStart hidle hrun' hover'
  cases hcursor.symm.trans following_cursor
  have hsame : ∀ e ∈ (SQLite.after Sample.sha (ended ++ [nextPage] ++
      [⟨.getRun run.id, clock 3⟩] ++ [⟨.listRunEvents run.id 3 (some 200), clock 3⟩] ++
      [⟨.getRun run.id, clock 3⟩])).eventsOf run.id, 2 < e.sequence →
        e ∈ (SQLite.after Sample.sha (ended ++ [nextPage] ++
          [⟨.getRun run.id, clock 3⟩])).eventsOf run.id := by decide +kernel
  exact ⟨_, _, hstream, rfl, (hiff _ ⟨clock 3, [], rfl, hpoll, hempty⟩).mpr hsame⟩

/-- The worker ends the run between the empty page and the reading of the run, and the client is not
sent the last event. -/
theorem following_not_sentAll : ¬ ∀ (r : StreamRequest) (calls : List Call) (cursor : ℤ)
    (sent : List RunEvent) (clock : ℕ → ClockReading) (run' : Run) (n : ℕ) (limit : ℤ),
    r.OneStart → r.cursor decimals = .ok ((n : ℤ), limit) →
    r.Streams Sample.sha decimals unnamed run.id claimed calls (.idle cursor false) sent →
    (perform Sample.sha ⟨.getRun run.id, clock⟩ (SQLite.after Sample.sha calls)).1 = .ok run' →
    run'.status.Terminal →
    StreamRequest.SentAll
      ((SQLite.after Sample.sha (calls ++ [⟨.getRun run.id, clock⟩])).eventsOf run.id) n sent := by
  intro h
  obtain ⟨run', hrun, hover⟩ :=
    exists_terminal (claimed ++ [nextPage] ++ [nextPage] ++ [finishing]) (by decide +kernel)
  have hall := h following _ 2 [] (clock 3) run' 2 200 following_oneStart following_cursor
    (following_idle.other finishing) hrun hover
  have hlate : ∃ e ∈ (SQLite.after Sample.sha
      (claimed ++ [nextPage] ++ [nextPage] ++ [finishing] ++
        [⟨.getRun run.id, clock 3⟩])).eventsOf run.id, 2 < e.sequence := by decide +kernel
  obtain ⟨e, he, hlt⟩ := hlate
  exact List.not_mem_nil (hall.mem e he hlt)

end Sample

end OpenRath
