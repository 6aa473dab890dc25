import OpenRath.Session.Persistence.TornWrites

/-!
# Writers of a session file one after the other

A `SessionWriter` opens its in-flight file in append mode and writes a header
(`src/rath/session/persistence/writer.py`), whatever an earlier writer has left there, and gives the
file the final name when it is closed, whatever file has that name.

A lifetime is the construction of a writer with the rows that it writes and with its end, which is
`close`, `abandon` or a crash behind any byte.

## Main definitions

* `Lifetime`, `Lifetime.run`, `runLifetimes`.
* `Safe`: the files that are there are accepted, and have the rows that were written.
* `Fits`: no in-flight file with content is continued, and no final file with rows is replaced.

## Main results

* `safe_of_fits`.
-/

namespace OpenRath

open TextFile

/-- What ends the use of a writer. -/
inductive Ending
  | close
  | abandon
  /-- A crash behind some bytes. -/
  | crash (written : ℕ)
deriving DecidableEq

/-- The use of a writer, with the clock readings of the header and the trailer. -/
structure Lifetime where
  session : Session
  sandboxHandleId : Option String
  path : Option String
  rows : List (ℤ × ChunkRow)
  createdAt : Clock
  closedAt : Clock
  ending : Ending

/-- The in-flight name of a file. -/
def partialName (finalPath : String) : String := finalPath ++ ".__partial__"

theorem partialName_ne (finalPath : String) : partialName finalPath ≠ finalPath := by
  intro h
  have hlength := congrArg String.length h
  rw [partialName, String.length_append] at hlength
  have hsuffix : ".__partial__".length ≠ 0 := by decide
  omega

namespace Lifetime

section Run

variable (host : Host) (l : Lifetime)

/-- The name of the file once it is closed. -/
def finalPath : String := l.path.getD (sessionFile l.session.id)

/-- The name of the file before. -/
def partialPath : String :=
  match l.path with
  | some path => partialName path
  | none => sessionPartialFile l.session.id

theorem partialPath_eq : l.partialPath = partialName l.finalPath := by
  rw [partialPath, finalPath]
  cases l.path with
  | some path => rfl
  | none =>
    rw [Option.getD_none, partialName, sessionFile, String.append_assoc]
    rfl

/-- The records of a writer that comes to its trailer. -/
def records : List JsonObject :=
  writtenRecords host l.session l.sandboxHandleId l.rows l.rows.length l.createdAt l.closedAt true

/-- What is written. -/
def bytes : List UInt8 :=
  match l.ending with
  | .close => fileBytes host l.session l.sandboxHandleId l.createdAt l.rows l.closedAt true
  | .abandon => fileBytes host l.session l.sandboxHandleId l.createdAt l.rows l.closedAt false
  | .crash written =>
    (fileBytes host l.session l.sandboxHandleId l.createdAt l.rows l.closedAt true).take written

/-- `SessionWriter.__init__`, with or without a path. -/
def create (dir : Directory) : SessionWriter × Directory :=
  let w : SessionWriter :=
    { session := l.session, finalPath := l.finalPath, partialPath := l.partialPath,
      chunksWritten := 0, closed := false }
  (w, SessionWriter.writeRecord host w
    (buildHeader host l.session l.sandboxHandleId (.utc l.createdAt)) dir)

/-- The calls of a lifetime. A crash leaves the first bytes of what would have been written. -/
def run (dir : Directory) : Except Exn Directory :=
  match l.ending with
  | .close => do
    let (w, dir) := l.create host dir
    let (w, dir) ← SessionWriter.writeChunks host w l.rows dir
    .ok (SessionWriter.close host w (.utc l.closedAt) dir).2
  | .abandon => do
    let (w, dir) := l.create host dir
    let (_, dir) ← SessionWriter.writeChunks host w l.rows dir
    .ok dir
  | .crash _ => .ok (dir.append l.partialPath (l.bytes host))

/-- The rows whose lines are complete. -/
def rowsWritten : List (ℤ × ChunkRow) :=
  l.rows.take (containedLines ((l.records host).map (recordLine host)) (l.bytes host).length - 1)

/-- What the lifetime has written can be read: the header is complete, the end is not within a
character, and no string in the complete lines has a separator. -/
structure Readable : Prop where
  header : (encode (recordLine host (buildHeader host l.session l.sandboxHandleId
    (.utc l.createdAt)))).length ≤ (l.bytes host).length
  cut : ∃ s, s <+: recordsText host (l.records host) ∧ encode s = l.bytes host
  oneLine : ∀ record ∈ (l.records host).take
    (containedLines ((l.records host).map (recordLine host)) (l.bytes host).length),
    (Json.obj record).OneLine
  timeout : TimeoutReads host l.session

/-- The data of the lifetime can be written and read as JSON. -/
structure WellFormed : Prop where
  readsBack : host.ReadsBack l.session l.createdAt
  loadable : ∀ record ∈ l.records host, (Json.obj record).Loadable host.floats

variable {l}

theorem isPrefix_bytes : l.bytes host <+: encode (recordsText host (l.records host)) := by
  rw [bytes]
  split
  · exact List.prefix_refl _
  · have hclosed := fileBytes_closed host l.session l.sandboxHandleId l.createdAt l.rows l.closedAt
    have hpre := List.prefix_append
      (fileBytes host l.session l.sandboxHandleId l.createdAt l.rows l.closedAt false)
      (encode (recordLine host (buildTrailer l.session l.rows.length (.utc l.closedAt))))
    rw [← hclosed] at hpre
    exact hpre
  · exact List.take_prefix _ _

/-- A lifetime appends its bytes to the in-flight file, and renames it if it is closed. -/
theorem run_eq (l : Lifetime) (dir : Directory) :
    l.run host dir = .ok (if l.ending = .close
      then (dir.append l.partialPath (l.bytes host)).replace l.partialPath l.finalPath
      else dir.append l.partialPath (l.bytes host)) := by
  have hrows := SessionWriter.writeChunks_eq host
    ⟨l.session, l.finalPath, l.partialPath, 0, false⟩ rfl l.rows dir
    (encode (recordLine host (buildHeader host l.session l.sandboxHandleId (.utc l.createdAt))))
  have hbytes : encode (recordLine host (buildHeader host l.session l.sandboxHandleId
        (.utc l.createdAt))) ++ encode (recordsText host (chunkRecords l.rows)) =
      fileBytes host l.session l.sandboxHandleId l.createdAt l.rows l.closedAt false := by
    simp [fileBytes, writtenRecords, trailers, recordsText]
  rw [hbytes] at hrows
  unfold run
  cases hending : l.ending with
  | close =>
    refine (congrArg (· >>= _) hrows).trans ?_
    rw [if_pos rfl, bytes, hending]
    dsimp only
    rw [fileBytes_closed, ← Directory.append_append]
    simp [SessionWriter.close, SessionWriter.writeRecord, bind, Except.bind]
  | abandon =>
    refine (congrArg (· >>= _) hrows).trans ?_
    rw [if_neg (by decide), bytes, hending]
    rfl
  | crash written => rw [if_neg Ending.noConfusion]

theorem bytes_ne_nil_of_close (h : l.ending = .close) : l.bytes host ≠ [] := by
  have hline := @encode_recordLine_length_pos host
    (buildTrailer l.session l.rows.length (.utc l.closedAt))
  rw [bytes, h]
  dsimp only
  rw [fileBytes_closed]
  intro hnil
  rw [(List.append_eq_nil_iff.mp hnil).2] at hline
  exact Nat.lt_irrefl 0 hline

theorem rowsWritten_of_bytes_eq_nil (h : l.bytes host = []) : l.rowsWritten host = [] := by
  have hline := @encode_recordLine_length_pos host
    (buildHeader host l.session l.sandboxHandleId (.utc l.createdAt))
  rw [rowsWritten, h, records, writtenRecords, List.map_cons, containedLines,
    List.length_nil, if_neg (Nat.not_le.mpr hline), List.take_zero]

variable {host}

/-- What a lifetime has written is accepted, with the rows whose lines are complete. -/
theorem Readable.load (hreadable : l.Readable host) (hformed : l.WellFormed host) (path : String) :
    ∃ p, loadFile host path (l.bytes host) = .ok p ∧
      p.rows = (l.rowsWritten host).map Prod.snd := by
  have hiff := @load_torn_iff host l.session l.sandboxHandleId l.rows l.createdAt l.closedAt true
    path (l.bytes host) (isPrefix_bytes host) hreadable.header hformed.readsBack hformed.loadable
  obtain ⟨p, hp, hread⟩ := hiff.mpr ⟨hreadable.cut, hreadable.oneLine, hreadable.timeout⟩
  exact ⟨p, hp, hread.rows_eq⟩

/-- The chunk records in what a lifetime has written are those of the rows. -/
theorem chunkRecordsIn_bytes (hformed : l.WellFormed host) :
    chunkRecordsIn host (l.bytes host) = chunkRecords (l.rowsWritten host) := by
  rw [chunkRecordsIn, recordsIn_of_isPrefix host (isPrefix_bytes host) fun record hrecord =>
    loads_dumps host.floats (hformed.loadable record hrecord), rowsWritten]
  generalize containedLines ((l.records host).map (recordLine host)) (l.bytes host).length = k
  cases k with
  | zero => rfl
  | succ k =>
    rw [records, take_writtenRecords host l.session l.sandboxHandleId l.rows l.createdAt l.closedAt
      true (Nat.le_add_left 1 k), Nat.add_sub_cancel]
    exact filter_writtenRecords _ _

end Run

end Lifetime

/-- The lifetimes one after the other. -/
def runLifetimes (host : Host) (lifetimes : List Lifetime) (dir : Directory) :
    Except Exn Directory :=
  lifetimes.foldlM (fun dir l => l.run host dir) dir

/-! ### What is promised -/

section Safety

variable (host : Host) (finalPath : String) (dir : Directory)

/-- The files of a session are accepted, and have the rows of the lifetimes. -/
structure Safe (lifetimes : List Lifetime) : Prop where
  accepted : ∀ name ∈ [finalPath, partialName finalPath], dir.read name ≠ none →
    ∀ i, ∃ p, loadSession host dir i (some name) = .ok p
  kept : ∀ l ∈ lifetimes, l.rowsWritten host = [] ∨
    ∃ name ∈ [finalPath, partialName finalPath], ∀ i, ∃ p,
      loadSession host dir i (some name) = .ok p ∧
        ((l.rowsWritten host).map Prod.snd).Sublist p.rows

/-- A lifetime can be begun: there is no in-flight file with content, and the lifetime does not
replace a file with rows. -/
structure Fits (l : Lifetime) : Prop where
  inFlight : (dir.read (partialName finalPath)).getD [] = []
  final : l.ending = .close → ∀ bytes, dir.read finalPath = some bytes →
    chunkRecordsIn host bytes = []
  reads : l.bytes host = [] ∨ l.Readable host

/-- Lifetimes that can be begun one after the other. -/
def FitAll : Directory → List Lifetime → Prop
  | _, [] => True
  | dir, l :: lifetimes => Fits host finalPath dir l ∧
      ∀ dir', l.run host dir = .ok dir' → FitAll dir' lifetimes

/-- The files behind lifetimes that fit. -/
structure Reopened (lifetimes : List Lifetime) : Prop where
  final : ∀ bytes, dir.read finalPath = some bytes → ∃ l ∈ lifetimes, l.bytes host = bytes ∧
    l.Readable host
  inFlight : ∀ bytes, dir.read (partialName finalPath) = some bytes → bytes = [] ∨
    ∃ l ∈ lifetimes, l.bytes host = bytes ∧ l.Readable host
  kept : ∀ l ∈ lifetimes, l.rowsWritten host = [] ∨ l.Readable host ∧
    ∃ name ∈ [finalPath, partialName finalPath], dir.read name = some (l.bytes host)
  last : (∀ l, lifetimes.getLast? = some l → l.bytes host ≠ []) →
    dir.read (partialName finalPath) ≠ some []

variable {host finalPath dir} {lifetimes : List Lifetime} {l : Lifetime}

/-- The files behind a further lifetime. -/
theorem Reopened.run (h : Reopened host finalPath dir lifetimes)
    (hformed : ∀ l ∈ lifetimes, l.WellFormed host) (hpath : l.finalPath = finalPath)
    (hfits : Fits host finalPath dir l) :
    ∃ dir', l.run host dir = .ok dir' ∧ Reopened host finalPath dir' (lifetimes ++ [l]) := by
  have hempty : ∀ bytes, dir.read (partialName finalPath) = some bytes → bytes = [] := by
    intro bytes hbytes
    have hinFlight := hfits.inFlight
    rw [hbytes] at hinFlight
    exact hinFlight
  have hpartialPath : l.partialPath = partialName finalPath := by rw [l.partialPath_eq, hpath]
  have hne := partialName_ne finalPath
  have happend : (dir.append (partialName finalPath) (l.bytes host)).read (partialName finalPath) =
      some (l.bytes host) := by
    rw [Directory.read_append, hfits.inFlight, List.nil_append]
  have hmem : l ∈ lifetimes ++ [l] := List.mem_append_right _ List.mem_cons_self
  refine ⟨_, l.run_eq host dir, ?_⟩
  rw [hpartialPath, hpath]
  split_ifs with hending
  · have hfinal := Directory.read_replace_target happend finalPath
    have hnone := Directory.read_replace_source happend hne
    have hreadable : l.Readable host := by
      refine hfits.reads.resolve_left fun hbytes => ?_
      exact Lifetime.bytes_ne_nil_of_close host hending hbytes
    refine ⟨fun bytes hbytes => ?_, fun bytes hbytes => ?_, fun l' hl' => ?_, fun _ => ?_⟩
    · exact ⟨l, hmem, Option.some_inj.mp (hfinal.symm.trans hbytes), hreadable⟩
    · rw [hnone] at hbytes
      cases hbytes
    · rcases List.mem_append.mp hl' with hl' | hl'
      · refine Or.inl ((h.kept l' hl').elim id ?_)
        rintro ⟨-, name, hname, hread⟩
        rcases List.mem_cons.mp hname with rfl | hname
        · have hchunks := hfits.final hending _ hread
          rw [Lifetime.chunkRecordsIn_bytes (hformed l' hl')] at hchunks
          exact List.map_eq_nil_iff.mp hchunks
        · rw [List.mem_singleton.mp hname] at hread
          exact Lifetime.rowsWritten_of_bytes_eq_nil host (hempty _ hread)
      · rw [List.mem_singleton.mp hl']
        exact Or.inr ⟨hreadable, _, List.mem_cons_self, hfinal⟩
    · rw [hnone]
      exact (Option.some_ne_none _).symm
  · have hfinal : (dir.append (partialName finalPath) (l.bytes host)).read finalPath =
        dir.read finalPath := Directory.read_append_of_ne dir hne.symm _
    refine ⟨fun bytes hbytes => ?_, fun bytes hbytes => ?_, fun l' hl' => ?_, fun hlast => ?_⟩
    · rw [hfinal] at hbytes
      obtain ⟨l', hl', hread⟩ := h.final bytes hbytes
      exact ⟨l', List.mem_append_left _ hl', hread⟩
    · rw [← Option.some_inj.mp (happend.symm.trans hbytes)]
      exact hfits.reads.imp_right fun hreadable => ⟨l, hmem, rfl, hreadable⟩
    · rcases List.mem_append.mp hl' with hl' | hl'
      · rcases h.kept l' hl' with hrows | ⟨hreadable, name, hname, hread⟩
        · exact Or.inl hrows
        · rcases List.mem_cons.mp hname with rfl | hname
          · exact Or.inr ⟨hreadable, _, List.mem_cons_self, hfinal.trans hread⟩
          · rw [List.mem_singleton.mp hname] at hread
            exact Or.inl (Lifetime.rowsWritten_of_bytes_eq_nil host (hempty _ hread))
      · rw [List.mem_singleton.mp hl']
        rcases hfits.reads with hnil | hreadable
        · exact Or.inl (Lifetime.rowsWritten_of_bytes_eq_nil host hnil)
        · exact Or.inr ⟨hreadable, _, List.mem_cons_of_mem _ List.mem_cons_self, happend⟩
    · rw [happend]
      exact fun heq => hlast l List.getLast?_concat (Option.some_inj.mp heq)

theorem reopened_runLifetimes {before : List Lifetime}
    (h : Reopened host finalPath dir before)
    (hformed : ∀ l ∈ before ++ lifetimes, l.WellFormed host)
    (hpath : ∀ l ∈ lifetimes, l.finalPath = finalPath)
    (hfits : FitAll host finalPath dir lifetimes) :
    ∃ dir', runLifetimes host lifetimes dir = .ok dir' ∧
      Reopened host finalPath dir' (before ++ lifetimes) := by
  induction lifetimes generalizing before dir with
  | nil => exact ⟨dir, rfl, by rwa [List.append_nil]⟩
  | cons l lifetimes ih =>
    obtain ⟨hfit, hrest⟩ := hfits
    obtain ⟨hfirst, hpaths⟩ := List.forall_mem_cons.mp hpath
    obtain ⟨dir', hrun, h'⟩ :=
      h.run (fun l hl => hformed l (List.mem_append_left _ hl)) hfirst hfit
    have hassoc : before ++ l :: lifetimes = before ++ [l] ++ lifetimes := by simp
    rw [hassoc] at hformed ⊢
    obtain ⟨dir'', hruns, h''⟩ := ih h' hformed hpaths (hrest dir' hrun)
    refine ⟨dir'', ?_, h''⟩
    rw [runLifetimes, List.foldlM_cons, hrun]
    exact hruns

/-- Lifetimes of which each one finds no in-flight file with content, and of which none replaces
rows, leave files that are accepted and that have all rows that were written. -/
theorem safe_of_fits (hfinal : dir.read finalPath = none)
    (hinFlight : dir.read (partialName finalPath) = none)
    (hpath : ∀ l ∈ lifetimes, l.finalPath = finalPath)
    (hformed : ∀ l ∈ lifetimes, l.WellFormed host)
    (hfits : FitAll host finalPath dir lifetimes)
    (hlast : ∀ l, lifetimes.getLast? = some l → l.bytes host ≠ []) :
    ∃ dir', runLifetimes host lifetimes dir = .ok dir' ∧ Safe host finalPath dir' lifetimes := by
  have hstart : Reopened host finalPath dir [] := by
    refine ⟨fun bytes hbytes => ?_, fun bytes hbytes => ?_, by simp, fun _ => ?_⟩
    · rw [hfinal] at hbytes
      cases hbytes
    · rw [hinFlight] at hbytes
      cases hbytes
    · rw [hinFlight]
      exact (Option.some_ne_none _).symm
  obtain ⟨dir', hruns, h⟩ := reopened_runLifetimes hstart hformed hpath hfits
  rw [List.nil_append] at h
  have hreadable : ∀ name ∈ [finalPath, partialName finalPath], ∀ bytes,
      dir'.read name = some bytes → ∃ l ∈ lifetimes, l.bytes host = bytes ∧ l.Readable host := by
    intro name hname bytes hbytes
    rcases List.mem_cons.mp hname with rfl | hname
    · exact h.final bytes hbytes
    · rw [List.mem_singleton.mp hname] at hbytes
      refine (h.inFlight bytes hbytes).resolve_left fun hnil => h.last hlast ?_
      rw [hbytes, hnil]
  have hload : ∀ name bytes, dir'.read name = some bytes → ∀ i,
      loadSession host dir' i (some name) = loadFile host name bytes := by
    intro name bytes hbytes i
    rw [loadSession, Option.getD_some, hbytes]
  refine ⟨dir', hruns, fun name hname hexists i => ?_, fun l hl => ?_⟩
  · obtain ⟨bytes, hbytes⟩ := Option.ne_none_iff_exists'.mp hexists
    obtain ⟨l, hl, rfl, hread⟩ := hreadable name hname bytes hbytes
    obtain ⟨p, hp, -⟩ := hread.load (hformed l hl) name
    exact ⟨p, (hload name _ hbytes i).trans hp⟩
  · refine (h.kept l hl).imp_right ?_
    rintro ⟨hread, name, hname, hbytes⟩
    refine ⟨name, hname, fun i => ?_⟩
    obtain ⟨p, hp, hrows⟩ := hread.load (hformed l hl) name
    refine ⟨p, (hload name _ hbytes i).trans hp, ?_⟩
    rw [hrows]

end Safety

/-! ### A file that is continued -/

section TwoHeaders

variable {host : Host} {path : String}

/-- Behind a header there is no other one in what is accepted. -/
theorem recordType_of_foldLines {records : List JsonObject} {n : ℕ} {s s' : Loading}
    (h : foldLines (loadRecord host path) n s records = .ok s') (hheader : s.header.isSome = true) :
    ∀ record ∈ records, record.getD "record_type" ≠ .str "header" := by
  induction records generalizing n s with
  | nil => simp
  | cons record records ih =>
    obtain ⟨t, ht, hrest⟩ := exists_of_bind_eq_ok h
    rw [loadRecord] at ht
    -- A second header is an error, and the other records leave the header as it is.
    split_ifs at ht with hrt
    · obtain ⟨row, -, ht⟩ := exists_of_bind_eq_ok ht
      cases ht
      exact List.forall_mem_cons.mpr ⟨hrt, ih hrest hheader⟩
    · obtain ⟨usage, -, ht⟩ := exists_of_bind_eq_ok ht
      cases ht
      exact List.forall_mem_cons.mpr ⟨hrt, ih hrest hheader⟩

/-- A file with two headers is not accepted. -/
theorem loadFile_ne_ok_of_mem {header record : JsonObject} {records : List JsonObject}
    (hheader : header.getD "record_type" = .str "header")
    (hrecord : record.getD "record_type" = .str "header") (hmem : record ∈ records)
    (hloads : ∀ record ∈ header :: records,
      loads host.floats (dumps host.floats (.obj record)) = .ok (.obj record))
    (p : PersistedSession) :
    loadFile host path (encode (recordsText host (header :: records))) ≠ .ok p := by
  intro hp
  obtain ⟨-, -, hfold⟩ := (loadFile_of_isPrefix host (List.prefix_refl _) fun record hrecord =>
    hloads record (List.mem_of_mem_take hrecord)).mp hp
  have hall := containedLines_eq_length (Nat.le_refl
    (encode ((header :: records).map (recordLine host)).flatten).length)
  rw [recordsText, List.flatMap_def, hall, List.length_map, List.take_length] at hfold
  obtain ⟨s, hlines, -⟩ := exists_of_bind_eq_ok hfold
  obtain ⟨t, ht, hrest⟩ := exists_of_bind_eq_ok hlines
  have hsome : t.header.isSome = true := by
    rw [loadRecord, if_pos hheader, if_neg (by decide)] at ht
    obtain ⟨-, -, ht⟩ := exists_of_bind_eq_ok ht
    obtain ⟨header, -, ht⟩ := exists_of_bind_eq_ok ht
    cases ht
    rfl
  exact recordType_of_foldLines hrest hsome record hmem hrecord

end TwoHeaders

/-! ### A session -/

section Sample

/-- A lifetime with a row. -/
def sampleLifetime (ending : Ending) : Lifetime where
  session := sampleSession
  sandboxHandleId := none
  path := none
  rows := sampleRows "x"
  createdAt := ⟨0, wall_pos⟩
  closedAt := ⟨0, wall_pos⟩
  ending := ending

theorem sampleLifetime_wellFormed (ending : Ending) :
    (sampleLifetime ending).WellFormed sampleHost := by
  refine ⟨sampleHost_readsBack, ?_⟩
  have hdigits : ∀ n ∈ [0, 1, 3, 4, 7], (dumpsInt n).countP Char.isDigit ≤ 4300 := by decide
  simp [Lifetime.records, sampleLifetime, writtenRecords, trailers, buildHeader, buildChunkRecord,
    buildTrailer, chunkRecords, sampleRows, sampleSession, lineageExtrasToJsonable,
    ExtraValue.jsonable, Json.ofText?, specToJsonable, cumulativeUsageToJsonable, schemaVersion,
    Json.Loadable, LoadableFields, LoadableItems, hdigits]

theorem sampleLifetime_readable : (sampleLifetime (.crash 450)).Readable sampleHost :=
  ⟨by decide +kernel,
    ⟨(recordsText sampleHost ((sampleLifetime .close).records sampleHost)).take 450,
    List.take_prefix _ _, by decide +kernel⟩, by decide +kernel,
    by simp [TimeoutReads, sampleLifetime, sampleSession]⟩

/-- A crash ahead of the first byte, and one within the trailer of the next writer. -/
theorem safe_of_fits_sample : ∃ dir', runLifetimes sampleHost
      [sampleLifetime (.crash 0), sampleLifetime (.crash 450)] Table.empty = .ok dir' ∧
    Safe sampleHost (sessionFile ⟨7⟩) dir'
      [sampleLifetime (.crash 0), sampleLifetime (.crash 450)] := by
  refine safe_of_fits rfl rfl (by simp [sampleLifetime, Lifetime.finalPath, sampleSession])
    (by simp [sampleLifetime_wellFormed])
    ⟨⟨rfl, by simp [sampleLifetime], Or.inl rfl⟩, fun dir' hrun => ?_⟩ ?_
  · cases hrun
    exact ⟨⟨by decide +kernel, by simp [sampleLifetime], Or.inr sampleLifetime_readable⟩,
      fun _ _ => trivial⟩
  · intro l hl
    obtain rfl : sampleLifetime (.crash 450) = l := by simpa using hl
    decide +kernel

/-- The in-flight file that an abandoned writer has left is continued by the next one, and is
given the final name with two headers. -/
theorem not_safe : ∃ dir', runLifetimes sampleHost [sampleLifetime .abandon, sampleLifetime .close]
      Table.empty = .ok dir' ∧
    ¬ Safe sampleHost (sessionFile ⟨7⟩) dir' [sampleLifetime .abandon, sampleLifetime .close] := by
  obtain ⟨dir', hruns, hread⟩ : ∃ dir', runLifetimes sampleHost
      [sampleLifetime .abandon, sampleLifetime .close] Table.empty = .ok dir' ∧
      dir'.read (sessionFile ⟨7⟩) = some (encode (recordsText sampleHost
        (((sampleLifetime .close).records sampleHost).dropLast ++
          (sampleLifetime .close).records sampleHost))) :=
    ⟨_, rfl, by decide +kernel⟩
  have hloads : ∀ record ∈ ((sampleLifetime .close).records sampleHost).dropLast ++
      (sampleLifetime .close).records sampleHost,
      loads sampleHost.floats (dumps sampleHost.floats (.obj record)) = .ok (.obj record) := by
    intro record hrecord
    refine loads_dumps _ ((sampleLifetime_wellFormed .close).loadable record ?_)
    exact (List.mem_append.mp hrecord).elim List.mem_of_mem_dropLast id
  refine ⟨dir', hruns, fun h => ?_⟩
  obtain ⟨p, hp⟩ := h.accepted _ List.mem_cons_self (by rw [hread]; exact Option.some_ne_none _) ⟨7⟩
  rw [loadSession, Option.getD_some, hread] at hp
  exact loadFile_ne_ok_of_mem rfl (recordType_buildHeader sampleHost _ _ _)
    (List.mem_cons_of_mem _ List.mem_cons_self) hloads p hp

end Sample

end OpenRath
