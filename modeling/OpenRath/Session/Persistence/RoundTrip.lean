import OpenRath.Session.Persistence.Lines

/-!
# Reading the file of a session

What the two readers make of the records that a writer has written.

## Main definitions

* `Host.ReadsBack`: Python reads the identifiers and the time of a header.
* `Storable`: a session of which the format keeps everything.
* `Restored`, `Reported`, `RoundTrips`.

## Main results

* `loadText_eq_ok_iff`, `metaFromFile_eq_ok_iff`: when the readers succeed, and with what.
* `roundTrips_iff`: a file is read as it was written exactly if the session is storable, no string
  has a separator, and the listing gets past the other files.
-/

namespace OpenRath

open TextFile

/-- A reading of the clock. -/
abbrev Clock : Type := Fin (Calendar.maxDays * usPerDay)

section Records

variable (host : Host) (session : Session) (sandboxHandleId : Option String) (createdAt : Clock)

/-- Python reads the identifiers of a session and the time of its header. -/
structure Host.ReadsBack : Prop where
  id : host.readings.uuid session.id.str = .ok session.id
  parentSessionIds : ∀ i ∈ session.parentSessionIds, host.readings.uuid i.str = .ok i
  createdAt : host.readings.datetime (isoformatUtc (.utc createdAt)) = .ok (.utc createdAt)

/-- What is read of the description of the sandbox. -/
def readSpec : Except Exn (Option BackendSandboxSpec) :=
  specFromJsonable host (specToJsonable host session.sandboxOpenSpec)

/-- The header that is read, with the description of the sandbox. -/
def headerOf (spec : Option BackendSandboxSpec) : PersistedSessionHeader where
  schemaVersion := schemaVersion
  id := session.id
  createdAt := .utc createdAt
  parentSessionIds := session.parentSessionIds
  lineageOperator := session.lineageOperator
  lineageKind := session.lineageKind
  lineageExtras := session.lineageExtras.map fun e => (e.1, e.2.jsonable)
  sandboxBackend := .ofText? session.sandboxBackend
  sandboxSpec := spec
  sandboxHandleId := .ofText? sandboxHandleId

variable {host session createdAt} (hback : host.ReadsBack session createdAt)

include hback

theorem headerFields_buildHeader :
    headerFields host (buildHeader host session sandboxHandleId (.utc createdAt)) =
      (readSpec host session).map (headerOf session sandboxHandleId createdAt) := by
  simp only [headerFields, buildHeader, JsonObject.get?, JsonObject.require, JsonObject.getD,
    Host.toInt, bind, Except.bind]
  simp [hback.id, hback.createdAt, parseUuidList_map_str host hback.parentSessionIds,
    lineageExtrasFromJsonable_lineageExtrasToJsonable]
  rw [readSpec]
  cases specFromJsonable host (specToJsonable host session.sandboxOpenSpec) <;> rfl

/-- When the header of a session is read, and with what. -/
theorem readHeader_eq_ok_iff {path : String} {lineno : ℕ} {header : PersistedSessionHeader} :
    readHeader host path (buildHeader host session sandboxHandleId (.utc createdAt)) lineno =
        .ok header ↔
      ∃ spec, readSpec host session = .ok spec ∧
        header = headerOf session sandboxHandleId createdAt spec := by
  have hupgrade : upgradeHeader host (buildHeader host session sandboxHandleId (.utc createdAt)) =
      .ok (buildHeader host session sandboxHandleId (.utc createdAt)) := by
    simp [upgradeHeader, buildHeader, JsonObject.get?, Host.toInt, schemaVersion, bind,
      Except.bind]
  simp only [readHeader, hupgrade, headerFromRecord, Except.mapError, bind, Except.bind,
    headerFields_buildHeader sandboxHandleId hback]
  cases readSpec host session with
  | error e => simp [Except.map]
  | ok spec => simp [Except.map, eq_comm]

/-- Where the header is not read, neither is the description of the sandbox. -/
theorem readSpec_ne_ok {path : String} {lineno : ℕ} {e : Exn}
    (h : readHeader host path (buildHeader host session sandboxHandleId (.utc createdAt)) lineno =
      .error e) (spec : Option BackendSandboxSpec) : readSpec host session ≠ .ok spec := by
  intro hspec
  have hok : readHeader host path (buildHeader host session sandboxHandleId (.utc createdAt))
      lineno = .ok _ := (readHeader_eq_ok_iff sandboxHandleId hback).mpr ⟨spec, hspec, rfl⟩
  rw [h] at hok
  cases hok

end Records

section Reading

variable (host : Host) (path : String)

/-! ### `load_session` -/

@[simp] theorem recordType_buildHeader (session : Session) (sandboxHandleId : Option String)
    (createdAt : Datetime) :
    (buildHeader host session sandboxHandleId createdAt).getD "record_type" = .str "header" := by
  simp [buildHeader, JsonObject.getD, JsonObject.get?]

omit host in
@[simp] theorem recordType_buildChunkRecord (index : ℤ) (row : ChunkRow) :
    (buildChunkRecord index row).getD "record_type" = .str "chunk" := by
  simp [buildChunkRecord, JsonObject.getD, JsonObject.get?]

omit host in
@[simp] theorem recordType_buildTrailer (session : Session) (n : ℕ) (closedAt : Datetime) :
    (buildTrailer session n closedAt).getD "record_type" = .str "trailer" := by
  simp [buildTrailer, JsonObject.getD, JsonObject.get?]

theorem chunkFromRecord_buildChunkRecord (index : ℤ) (row : ChunkRow) (lineno : ℕ) :
    chunkFromRecord host path (buildChunkRecord index row) lineno = .ok row := by
  simp [chunkFromRecord, buildChunkRecord, JsonObject.get?, bind, Except.bind]

/-- Chunk records are read as their rows. -/
theorem foldLines_chunkRecords (rows : List (ℤ × ChunkRow)) (lineno : ℕ) (s : Loading)
    (hs : s.header.isSome = true) :
    foldLines (loadRecord host path) lineno s (chunkRecords rows) =
      .ok { s with rows := s.rows ++ rows.map Prod.snd } := by
  induction rows generalizing lineno s with
  | nil => simp [chunkRecords, foldLines]
  | cons r rows ih =>
    have hfirst : loadRecord host path lineno s (buildChunkRecord r.1 r.2) =
        .ok { s with rows := s.rows ++ [r.2] } := by
      have hnone : ¬ s.header.isNone = true := by
        rw [Option.isNone_iff_eq_none, ← Option.not_isSome_iff_eq_none, not_not]
        exact hs
      simp [loadRecord, hnone, chunkFromRecord_buildChunkRecord, bind, Except.bind]
    refine (show foldLines (loadRecord host path) lineno s (chunkRecords (r :: rows)) =
      loadRecord host path lineno s (buildChunkRecord r.1 r.2) >>= fun s =>
        foldLines (loadRecord host path) (lineno + 1) s (chunkRecords rows) from rfl).trans ?_
    rw [hfirst]
    refine (ih (lineno + 1) { s with rows := s.rows ++ [r.2] } hs).trans ?_
    simp

/-- The counts of tokens that are read. -/
def usageRead (session : Session) : Option RathLLMTokenUsage :=
  session.cumulativeUsage.map fun u =>
    ⟨u.promptTokens, u.completionTokens, u.totalTokens, none, none⟩

/-- A trailer is read as the end of the session. -/
theorem loadRecord_buildTrailer (session : Session) (n : ℕ) (closedAt : Datetime) (lineno : ℕ)
    (s : Loading) :
    loadRecord host path lineno s (buildTrailer session n closedAt) =
      .ok { s with trailer := some (buildTrailer session n closedAt),
                   cumulativeUsage := usageRead session } := by
  have husage : (buildTrailer session n closedAt).getD "cumulative_usage" =
      cumulativeUsageToJsonable session.cumulativeUsage := by
    simp [buildTrailer, JsonObject.getD, JsonObject.get?]
  simp [loadRecord, husage, usageFromJsonable_cumulativeUsageToJsonable, usageRead, bind,
    Except.bind]

/-- The trailer, if the writer has come to it. -/
def trailers (session : Session) (n : ℕ) (closedAt : Clock) (closed : Bool) : List JsonObject :=
  if closed then [buildTrailer session n (.utc closedAt)] else []

/-- The records that a writer has written, up to the trailer or not so far. -/
def writtenRecords (session : Session) (sandboxHandleId : Option String)
    (rows : List (ℤ × ChunkRow)) (count : ℕ) (createdAt closedAt : Clock) (closed : Bool) :
    List JsonObject :=
  buildHeader host session sandboxHandleId (.utc createdAt) ::
    (chunkRecords rows ++ trailers session count closedAt closed)

/-- The session that is read in records. -/
def persistedOf (session : Session) (sandboxHandleId : Option String) (rows : List ChunkRow)
    (count : ℕ) (createdAt closedAt : Clock) (closed : Bool) (spec : Option BackendSandboxSpec) :
    PersistedSession where
  header := headerOf session sandboxHandleId createdAt spec
  rows := rows
  cumulativeUsage := if closed then usageRead session else none
  closed := closed
  path := path
  trailerRaw := (trailers session count closedAt closed).head?

variable {host path} {session : Session} {sandboxHandleId : Option String}
  {createdAt closedAt : Clock} (hback : host.ReadsBack session createdAt)
  {rows : List (ℤ × ChunkRow)} {count : ℕ} {closed : Bool}

theorem loadRecord_buildHeader (lineno : ℕ) :
    loadRecord host path lineno .start
        (buildHeader host session sandboxHandleId (.utc createdAt)) =
      (readHeader host path (buildHeader host session sandboxHandleId (.utc createdAt)) lineno).map
        fun header => ⟨some header, [], none, none⟩ := by
  have hversion : host.toInt (((buildHeader host session sandboxHandleId (.utc createdAt)).get?
      "schema_version").getD (.int 0)) = .ok schemaVersion := by
    simp [buildHeader, JsonObject.get?, Host.toInt]
  rw [loadRecord, recordType_buildHeader, if_pos rfl, if_neg (by simp [Loading.start]), hversion]
  cases readHeader host path (buildHeader host session sandboxHandleId (.utc createdAt)) lineno <;>
    rfl

variable (host path session closedAt rows count closed) in
/-- What is read behind the header. -/
theorem foldLines_afterHeader (header : PersistedSessionHeader) (lineno : ℕ) :
    foldLines (loadRecord host path) lineno ⟨some header, [], none, none⟩
        (chunkRecords rows ++ trailers session count closedAt closed) =
      .ok ⟨some header, rows.map Prod.snd, (trailers session count closedAt closed).head?,
        if closed then usageRead session else none⟩ := by
  rw [foldLines_append, foldLines_chunkRecords host path rows lineno _ rfl]
  cases closed with
  | false => rfl
  | true =>
    refine (show foldLines (loadRecord host path) (lineno + (chunkRecords rows).length)
      ⟨some header, [] ++ rows.map Prod.snd, none, none⟩
        [buildTrailer session count (.utc closedAt)] = _ from ?_)
    rw [foldLines, loadRecord_buildTrailer]
    rfl

section Load

include hback

/-- When the records of a writer are read, and with what. -/
theorem foldLines_writtenRecords {p : PersistedSession} :
    (foldLines (loadRecord host path) 1 .start (writtenRecords host session sandboxHandleId rows
        count createdAt closedAt closed) >>= Loading.result path) = .ok p ↔
      ∃ spec, readSpec host session = .ok spec ∧ p = persistedOf path session sandboxHandleId
        (rows.map Prod.snd) count createdAt closedAt closed spec := by
  rw [writtenRecords, foldLines, loadRecord_buildHeader]
  cases hheader : readHeader host path
      (buildHeader host session sandboxHandleId (.utc createdAt)) 1 with
  | error e =>
    have hnone : ¬ ∃ spec, readSpec host session = .ok spec ∧ p = persistedOf path session
        sandboxHandleId (rows.map Prod.snd) count createdAt closedAt closed spec := by
      rintro ⟨spec, hspec, -⟩
      exact readSpec_ne_ok sandboxHandleId hback hheader spec hspec
    simp [Except.map, bind, Except.bind, hnone]
  | ok header =>
    obtain ⟨spec, hspec, rfl⟩ := (readHeader_eq_ok_iff sandboxHandleId hback).mp hheader
    have hrest := foldLines_afterHeader host path session closedAt rows count closed
      (headerOf session sandboxHandleId createdAt spec) 2
    have hclosed : (trailers session count closedAt closed).head?.isSome = closed := by
      cases closed <;> rfl
    have hresult : (Except.ok ⟨some (headerOf session sandboxHandleId createdAt spec), [], none,
        none⟩ >>= fun s => foldLines (loadRecord host path) (1 + 1) s (chunkRecords rows ++
          trailers session count closedAt closed)) >>= Loading.result path =
        .ok (persistedOf path session sandboxHandleId (rows.map Prod.snd) count createdAt closedAt
          closed spec) := by
      refine (congrArg (· >>= Loading.result path) hrest).trans ?_
      simp [bind, Except.bind, Loading.result, persistedOf, hclosed]
    rw [Except.map, hresult, hspec]
    simp [eq_comm]

end Load

/-- A text without carriage return is read as it was written. -/
theorem readText_encode {t : List Char} (h : '\r' ∉ t) : readText (encode t) = some t := by
  rw [readText, decode_encode, Option.map_some, universalNewlines_of_not_mem h]

/-- The lines of the records that were written, which may be followed by the beginning of a
further line. -/
theorem foldLines_splitlines {records : List JsonObject} {t : List Char} (hnewline : '\n' ∉ t)
    (hreturn : '\r' ∉ t)
    (hloads : ∀ record ∈ records,
      loads host.floats (dumps host.floats (.obj record)) = .ok (.obj record)) {s : Loading} :
    foldLines (loadLine host path) 1 .start (splitlines (recordsText host records ++ t)) = .ok s ↔
      (∀ record ∈ records, (Json.obj record).OneLine) ∧
        foldLines (loadRecord host path) 1 .start records = .ok s := by
  have hreader := loadLine_reader host path
  have hsplit : splitlines (recordsText host records ++ t) =
      splitAfter isLineBoundary (recordsText host records ++ t) := by
    refine splitlines_eq_splitAfter fun h => ?_
    rcases List.mem_append.mp h with h | h
    · exact return_not_mem_recordsText host records h
    · exact hreturn h
  have hrecords : (∀ record ∈ records, (Json.obj record).OneLine) →
      foldLines (loadLine host path) 1 .start (splitAfter isLineBoundary
        (recordsText host records ++ t)) = foldLines (loadRecord host path) 1 .start records := by
    intro hone
    have hline : ∀ record ∈ records, ∀ c ∈ dumps host.floats (.obj record),
        isLineBoundary c = false :=
      fun record hrecord => isLineBoundary_eq_false host.floats (hone record hrecord)
    rw [hreader.foldLines_recordsText (by decide) hline hloads]
    cases foldLines (loadRecord host path) 1 .start records with
    | error e => rfl
    | ok s' => exact hreader.foldLines_cut hnewline _ s'
  rw [hsplit]
  constructor
  · intro h
    have hone := hreader.oneLine_of_foldLines h
    exact ⟨hone, (hrecords hone).symm.trans h⟩
  · rintro ⟨hone, h⟩
    exact (hrecords hone).trans h

include hback

/-- When the file of a writer is read, which may end with the beginning of a further line, and
with what. -/
theorem loadFile_eq_ok_iff {t : List Char} (hnewline : '\n' ∉ t) (hreturn : '\r' ∉ t)
    (hloads : ∀ record ∈ writtenRecords host session sandboxHandleId rows count createdAt closedAt
      closed, loads host.floats (dumps host.floats (.obj record)) = .ok (.obj record))
    {p : PersistedSession} :
    loadFile host path (encode (recordsText host (writtenRecords host session sandboxHandleId rows
        count createdAt closedAt closed) ++ t)) = .ok p ↔
      (∀ record ∈ writtenRecords host session sandboxHandleId rows count createdAt closedAt closed,
        (Json.obj record).OneLine) ∧
      ∃ spec, readSpec host session = .ok spec ∧ p = persistedOf path session sandboxHandleId
        (rows.map Prod.snd) count createdAt closedAt closed spec := by
  have htext : '\r' ∉ recordsText host (writtenRecords host session sandboxHandleId rows count
      createdAt closedAt closed) ++ t := by
    intro h
    rcases List.mem_append.mp h with h | h
    · exact return_not_mem_recordsText host _ h
    · exact hreturn h
  rw [← foldLines_writtenRecords hback, loadFile, readText_encode htext]
  dsimp only
  constructor
  · intro h
    obtain ⟨s, hlines, hresult⟩ := exists_of_bind_eq_ok h
    obtain ⟨hone, hrecords⟩ := (foldLines_splitlines hnewline hreturn hloads).mp hlines
    exact ⟨hone, by rw [hrecords]; exact hresult⟩
  · rintro ⟨hone, h⟩
    obtain ⟨s, hrecords, hresult⟩ := exists_of_bind_eq_ok h
    rw [(foldLines_splitlines hnewline hreturn hloads).mpr ⟨hone, hrecords⟩]
    exact hresult

/-- When the file of a writer that was closed is read, and with what. -/
theorem loadFile_sessionRecords_iff
    (hloads : ∀ record ∈ sessionRecords host session sandboxHandleId rows (.utc createdAt)
      (.utc closedAt), loads host.floats (dumps host.floats (.obj record)) = .ok (.obj record))
    {p : PersistedSession} :
    loadFile host path (encode (recordsText host (sessionRecords host session sandboxHandleId rows
        (.utc createdAt) (.utc closedAt)))) = .ok p ↔
      (∀ record ∈ sessionRecords host session sandboxHandleId rows (.utc createdAt) (.utc closedAt),
        (Json.obj record).OneLine) ∧
      ∃ spec, readSpec host session = .ok spec ∧ p = persistedOf path session sandboxHandleId
        (rows.map Prod.snd) rows.length createdAt closedAt true spec := by
  have hrecords : sessionRecords host session sandboxHandleId rows (.utc createdAt)
      (.utc closedAt) = writtenRecords host session sandboxHandleId rows rows.length createdAt
        closedAt true := rfl
  rw [hrecords] at hloads ⊢
  have hiff := @loadFile_eq_ok_iff host path session sandboxHandleId createdAt closedAt hback rows
    rows.length true [] List.not_mem_nil List.not_mem_nil hloads p
  rwa [List.append_nil] at hiff

/-! ### `list_persisted_sessions` -/

omit hback in
theorem foldLines_metaRecord_chunkRecords (header : PersistedSessionHeader) (lineno n : ℕ)
    (rows : List (ℤ × ChunkRow)) :
    foldLines (metaRecord host path) lineno ⟨some header, n, false⟩ (chunkRecords rows) =
      .ok ⟨some header, n + rows.length, false⟩ := by
  induction rows generalizing lineno n with
  | nil => rfl
  | cons r rows ih =>
    have hfirst : metaRecord host path lineno ⟨some header, n, false⟩
        (buildChunkRecord r.1 r.2) = .ok ⟨some header, n + 1, false⟩ := by
      simp [metaRecord]
    refine (show foldLines (metaRecord host path) lineno ⟨some header, n, false⟩
      (chunkRecords (r :: rows)) = metaRecord host path lineno ⟨some header, n, false⟩
        (buildChunkRecord r.1 r.2) >>= fun s =>
          foldLines (metaRecord host path) (lineno + 1) s (chunkRecords rows) from rfl).trans ?_
    rw [hfirst]
    refine (ih (lineno + 1) (n + 1)).trans ?_
    rw [List.length_cons, Nat.add_assoc, Nat.add_comm 1]

/-- When the file of a writer that was closed is listed, and with what. -/
theorem metaFromFile_eq_ok_iff
    (hloads : ∀ record ∈ sessionRecords host session sandboxHandleId rows (.utc createdAt)
      (.utc closedAt), loads host.floats (dumps host.floats (.obj record)) = .ok (.obj record))
    {m : PersistedSessionMeta} :
    metaFromFile host path (encode (recordsText host (sessionRecords host session sandboxHandleId
        rows (.utc createdAt) (.utc closedAt)))) = .ok m ↔
      (∃ spec, readSpec host session = .ok spec) ∧ m = ⟨session.id, path, .utc createdAt,
        session.lineageOperator, session.lineageKind, rows.length, true⟩ := by
  have hreader := metaLine_reader host path
  set records := sessionRecords host session sandboxHandleId rows (.utc createdAt) (.utc closedAt)
    with hrecords
  have hlines : foldLines (metaLine host path) 1 .start (fileLines (recordsText host records)) =
      foldLines (metaRecord host path) 1 .start records := by
    have hfold := hreader.foldLines_recordsText (p := (· = '\n')) (by decide)
      (fun record _ c hc => by
        refine decide_eq_false ?_
        rintro rfl
        exact newline_not_mem_dumps host _ hc) hloads [] 1 .start
    rw [List.append_nil] at hfold
    refine hfold.trans ?_
    cases foldLines (metaRecord host path) 1 .start records <;> rfl
  have hheader : metaRecord host path 1 .start
      (buildHeader host session sandboxHandleId (.utc createdAt)) =
        (readHeader host path (buildHeader host session sandboxHandleId (.utc createdAt)) 1).map
          fun header => ⟨some header, 0, false⟩ := by
    rw [metaRecord, recordType_buildHeader, if_pos (by simp [MetaLoading.start])]
    cases readHeader host path (buildHeader host session sandboxHandleId (.utc createdAt)) 1 <;> rfl
  have htrailer : ∀ lineno (header : PersistedSessionHeader) n, metaRecord host path lineno
      ⟨some header, n, false⟩ (buildTrailer session rows.length (.utc closedAt)) =
        .ok ⟨some header, n, true⟩ := by
    intro lineno header n
    simp [metaRecord]
  rw [metaFromFile, readText_encode (return_not_mem_recordsText host records)]
  dsimp only
  rw [hlines, hrecords, sessionRecords, foldLines, hheader]
  cases hread : readHeader host path
      (buildHeader host session sandboxHandleId (.utc createdAt)) 1 with
  | error e =>
    have hnone : ¬ ∃ spec, readSpec host session = .ok spec := by
      rintro ⟨spec, hspec⟩
      exact readSpec_ne_ok sandboxHandleId hback hread spec hspec
    simp [Except.map, bind, Except.bind, hnone]
  | ok header =>
    obtain ⟨spec, hspec, rfl⟩ := (readHeader_eq_ok_iff sandboxHandleId hback).mp hread
    have hrest : foldLines (metaRecord host path) (1 + 1)
        ⟨some (headerOf session sandboxHandleId createdAt spec), 0, false⟩
        (chunkRecords rows ++ [buildTrailer session rows.length (.utc closedAt)]) =
          .ok ⟨some (headerOf session sandboxHandleId createdAt spec), rows.length, true⟩ := by
      rw [foldLines_append, foldLines_metaRecord_chunkRecords, Nat.zero_add]
      refine (show foldLines (metaRecord host path) (1 + 1 + (chunkRecords rows).length)
        ⟨some (headerOf session sandboxHandleId createdAt spec), rows.length, false⟩
          [buildTrailer session rows.length (.utc closedAt)] = _ from ?_)
      rw [foldLines, htrailer]
      rfl
    have hresult : (Except.ok ⟨some (headerOf session sandboxHandleId createdAt spec), 0, false⟩ >>=
        fun s => foldLines (metaRecord host path) (1 + 1) s (chunkRecords rows ++
          [buildTrailer session rows.length (.utc closedAt)])) >>= MetaLoading.result path =
        .ok ⟨session.id, path, .utc createdAt, session.lineageOperator, session.lineageKind,
          rows.length, true⟩ :=
      congrArg (· >>= MetaLoading.result path) hrest
    rw [Except.map, hresult, hspec]
    simp [eq_comm]

end Reading

/-! ### Directories -/

section Directories

variable (host : Host)

/-- A file that the listing gets past: it is not one of a session, it is skipped, or its header
has a time with an offset. -/
def Listed (f : File) : Prop :=
  isSessionFile f.1 = true →
    match metaFromFile host f.1 f.2 with
    | .ok m => m.createdAt.Aware
    | .error e => e.isPersistenceError = true

theorem path_of_metaFromFile {path : String} {bytes : List UInt8} {m : PersistedSessionMeta}
    (h : metaFromFile host path bytes = .ok m) : m.path = path := by
  unfold metaFromFile at h
  split at h
  · cases h
  · obtain ⟨s, -, h⟩ := exists_of_bind_eq_ok h
    unfold MetaLoading.result at h
    split at h
    · cases h
    · cases h
      rfl

/-- The summaries of the files, if the listing gets past all of them. -/
theorem metasOfFiles_eq_ok {files : List File} {metas : List PersistedSessionMeta}
    (h : metasOfFiles host files = .ok metas) :
    (∀ f ∈ files, isSessionFile f.1 = true → ∀ e, metaFromFile host f.1 f.2 = .error e →
      e.isPersistenceError = true) ∧
    ∀ m, m ∈ metas ↔ ∃ f ∈ files, isSessionFile f.1 = true ∧ metaFromFile host f.1 f.2 = .ok m := by
  induction files generalizing metas with
  | nil =>
    cases h
    simp
  | cons f files ih =>
    rw [metasOfFiles] at h
    split at h
    · rename_i hfile
      split at h
      · rename_i m hm
        obtain ⟨metas', hrest, h⟩ := exists_of_bind_eq_ok h
        cases h
        obtain ⟨herrors, hmem⟩ := ih hrest
        constructor
        · refine List.forall_mem_cons.mpr ⟨fun _ e he => ?_, herrors⟩
          rw [hm] at he
          cases he
        · intro m'
          simp [hmem, hfile, hm, @eq_comm _ m' m]
      · rename_i e he
        split_ifs at h with hskip
        obtain ⟨herrors, hmem⟩ := ih h
        constructor
        · refine List.forall_mem_cons.mpr ⟨fun _ e' he' => ?_, herrors⟩
          rw [he] at he'
          cases he'
          exact hskip
        · intro m'
          simp [hmem, he]
    · rename_i hfile
      obtain ⟨herrors, hmem⟩ := ih h
      constructor
      · exact List.forall_mem_cons.mpr ⟨fun h => absurd h hfile, herrors⟩
      · intro m'
        simp [hmem, hfile]

theorem exists_metasOfFiles {files : List File}
    (h : ∀ f ∈ files, isSessionFile f.1 = true → ∀ e, metaFromFile host f.1 f.2 = .error e →
      e.isPersistenceError = true) : ∃ metas, metasOfFiles host files = .ok metas := by
  induction files with
  | nil => exact ⟨[], rfl⟩
  | cons f files ih =>
    obtain ⟨hf, hfiles⟩ := List.forall_mem_cons.mp h
    obtain ⟨metas, hmetas⟩ := ih hfiles
    rw [metasOfFiles]
    split
    · rename_i hfile
      split
      · rename_i m hm
        exact ⟨m :: metas, by rw [hmetas]; rfl⟩
      · rename_i e he
        rw [if_pos (hf hfile e he)]
        exact ⟨metas, hmetas⟩
    · exact ⟨metas, hmetas⟩

/-- A listing that has a file with an aware time gets past all files. -/
theorem listPersistedSessions_eq_ok {dir : Directory} {metas : List PersistedSessionMeta}
    (h : listPersistedSessions host dir = .ok metas) (haware : ∃ m ∈ metas, m.createdAt.Aware) :
    (∀ f ∈ dir.rows, Listed host f) ∧ ∀ m, m ∈ metas ↔
      ∃ f ∈ dir.rows, isSessionFile f.1 = true ∧ metaFromFile host f.1 f.2 = .ok m := by
  obtain ⟨metas', hmetas, hsort⟩ := exists_of_bind_eq_ok h
  obtain ⟨herrors, hmem⟩ := metasOfFiles_eq_ok host hmetas
  unfold sortMetas at hsort
  split_ifs at hsort with haware'
  cases hsort
  simp only [List.mem_mergeSort] at haware hmem herrors ⊢
  refine ⟨fun f hf hfile => ?_, hmem⟩
  obtain ⟨m', hm', hm''⟩ := haware
  have hall : ∀ m ∈ metas', m.createdAt.Aware :=
    haware'.resolve_right fun hnone => hnone m' hm' hm''
  cases hm : metaFromFile host f.1 f.2 with
  | ok m => exact hall m ((hmem m).mpr ⟨f, hf, hfile, hm⟩)
  | error e => exact herrors f hf hfile e hm

theorem exists_listPersistedSessions {dir : Directory} (h : ∀ f ∈ dir.rows, Listed host f) :
    ∃ metas, listPersistedSessions host dir = .ok metas ∧ ∀ m, m ∈ metas ↔
      ∃ f ∈ dir.rows, isSessionFile f.1 = true ∧ metaFromFile host f.1 f.2 = .ok m := by
  have herrors : ∀ f ∈ dir.rows.mergeSort fun f f' => f.1 ≤ f'.1, isSessionFile f.1 = true →
      ∀ e, metaFromFile host f.1 f.2 = .error e → e.isPersistenceError = true := by
    intro f hf hfile e he
    have hlisted := h f (List.mem_mergeSort.mp hf) hfile
    rw [he] at hlisted
    exact hlisted
  obtain ⟨metas, hmetas⟩ := exists_metasOfFiles host herrors
  obtain ⟨-, hmem⟩ := metasOfFiles_eq_ok host hmetas
  have haware : ∀ m ∈ metas, m.createdAt.Aware := by
    intro m hm
    obtain ⟨f, hf, hfile, hmeta⟩ := (hmem m).mp hm
    have hlisted := h f (List.mem_mergeSort.mp hf) hfile
    rw [hmeta] at hlisted
    exact hlisted
  refine ⟨metas.mergeSort fun m m' => m.createdAt.instant ≤ m'.createdAt.instant, ?_, ?_⟩
  · rw [listPersistedSessions, hmetas]
    exact if_pos (Or.inl haware)
  · intro m
    simp only [List.mem_mergeSort, hmem]

end Directories

/-! ### Round trips -/

section RoundTrips

variable (host : Host) (session : Session)

/-- A session of which the format keeps everything: the extras are JSON values, the counts of
tokens have no details, and the timeout of the sandbox is one that a floating-point number of
seconds gives back. -/
structure Storable : Prop where
  extras : ∀ e ∈ session.lineageExtras, ∃ v, e.2 = .json v
  usage : ∀ u ∈ session.cumulativeUsage,
    u.completionTokensDetails = none ∧ u.promptTokensDetails = none
  timeout : ∀ spec ∈ session.sandboxOpenSpec, ∀ us ∈ spec.timeout,
    timedelta (.ofDouble (host.totalSeconds us)) = .ok us

/-- A session is read with the same rows, closed, with the same identifiers, lineage, sandbox and
usage. -/
structure Restored (rows : List ChunkRow) (p : PersistedSession) : Prop where
  rows : p.rows = rows
  closed : p.closed = true
  id : p.header.id = session.id
  parentSessionIds : p.header.parentSessionIds = session.parentSessionIds
  lineageOperator : p.header.lineageOperator = session.lineageOperator
  lineageKind : p.header.lineageKind = session.lineageKind
  lineageExtras : (p.header.lineageExtras.map fun e => (e.1, ExtraValue.json e.2)) =
    session.lineageExtras
  sandboxBackend : p.header.sandboxBackend = .ofText? session.sandboxBackend
  sandboxSpec : p.header.sandboxSpec = session.sandboxOpenSpec
  cumulativeUsage : p.cumulativeUsage = session.cumulativeUsage

/-- A listing reports the file of a session with a number of chunks, and closed. -/
structure Reported (count : ℕ) (metas : List PersistedSessionMeta) : Prop where
  mem : ∃ m ∈ metas, m.path = sessionFile session.id
  count : ∀ m ∈ metas, m.path = sessionFile session.id → m.chunkCount = count
  closed : ∀ m ∈ metas, m.path = sessionFile session.id → m.closed = true

/-- The file of a session is read as it was written, by its identifier and by its path, and the
listing reports it. -/
structure RoundTrips (rows : List ChunkRow) (dir : Directory) : Prop where
  load : ∀ path ∈ [none, some (sessionFile session.id)],
    ∃ p, loadSession host dir session.id path = .ok p ∧ Restored session rows p
  list : ∃ metas, listPersistedSessions host dir = .ok metas ∧
    Reported session rows.length metas

theorem extras_eq_iff (extras : List (String × ExtraValue)) :
    ((extras.map fun e => (e.1, e.2.jsonable)).map fun e => (e.1, ExtraValue.json e.2)) = extras ↔
      ∀ e ∈ extras, ∃ v, e.2 = .json v := by
  rw [List.map_map]
  constructor
  · intro h e he
    have hsame := List.map_inj_left.mp (h.trans (List.map_id extras).symm) e he
    exact ⟨e.2.jsonable, (congrArg Prod.snd hsame).symm⟩
  · intro h
    refine (List.map_congr_left fun e he => ?_).trans (List.map_id extras)
    obtain ⟨v, hv⟩ := h e he
    exact Prod.ext rfl (by simp [hv, ExtraValue.jsonable])

theorem usageRead_eq_iff : usageRead session = session.cumulativeUsage ↔
    ∀ u ∈ session.cumulativeUsage,
      u.completionTokensDetails = none ∧ u.promptTokensDetails = none := by
  cases husage : session.cumulativeUsage with
  | none => simp [usageRead, husage]
  | some u =>
    obtain ⟨promptTokens, completionTokens, totalTokens, completionDetails, promptDetails⟩ := u
    simp [usageRead, husage, eq_comm]

theorem readSpec_eq_iff : readSpec host session = .ok session.sandboxOpenSpec ↔
    ∀ spec ∈ session.sandboxOpenSpec, ∀ us ∈ spec.timeout,
      timedelta (.ofDouble (host.totalSeconds us)) = .ok us := by
  rw [readSpec, specFromJsonable_specToJsonable]
  cases session.sandboxOpenSpec with
  | none => simp
  | some spec =>
    obtain ⟨image, entrypoint, env, timeout, workingDir⟩ := spec
    cases timeout with
    | none => simp [readTimeout, Except.map]
    | some us =>
      cases htimeout : timedelta (.ofDouble (host.totalSeconds us)) <;>
        simp [readTimeout, Except.map, htimeout]

/-- What is read of a session is the session exactly if it is storable. -/
theorem restored_iff {path : String} {sandboxHandleId : Option String} {rows : List ChunkRow}
    {count : ℕ} {createdAt closedAt : Clock} :
    (∃ spec, readSpec host session = .ok spec ∧ Restored session rows
      (persistedOf path session sandboxHandleId rows count createdAt closedAt true spec)) ↔
      Storable host session := by
  constructor
  · rintro ⟨spec, hspec, hrestored⟩
    refine ⟨(extras_eq_iff _).mp hrestored.lineageExtras,
      (usageRead_eq_iff session).mp hrestored.cumulativeUsage, ?_⟩
    exact (readSpec_eq_iff host session).mp (hspec.trans (congrArg _ hrestored.sandboxSpec))
  · intro hstorable
    refine ⟨_, (readSpec_eq_iff host session).mpr hstorable.timeout, ?_⟩
    exact { rows := rfl, closed := rfl, id := rfl, parentSessionIds := rfl, lineageOperator := rfl
            lineageKind := rfl, lineageExtras := (extras_eq_iff _).mpr hstorable.extras
            sandboxBackend := rfl, sandboxSpec := rfl
            cumulativeUsage := (usageRead_eq_iff session).mpr hstorable.usage }

theorem isSessionFile_sessionFile (i : UUID) : isSessionFile (sessionFile i) = true := by
  have hsuffix : sessionFileSuffix.toList <:+ (sessionFile i).toList := by
    rw [sessionFile, String.toList_append]
    exact List.suffix_append _ _
  rw [isSessionFile, List.isSuffixOf_iff_suffix.mpr hsuffix, Bool.true_or]

omit host session in
theorem read_of_mem {dir dir' : Directory} {name : String} {bytes : List UInt8}
    (hrows : ∀ f : File, f ∈ dir'.rows ↔ (f ∈ dir.rows ∧ f.1 ≠ name) ∨ f = (name, bytes)) :
    dir'.read name = some bytes := by
  rw [Directory.read, Table.find?_of_mem ((hrows (name, bytes)).mpr (Or.inr rfl))]
  rfl

/-- A file that is added to a directory is read as it was written exactly if it can be read as
the session and the listing gets past the other files. -/
theorem roundTrips_of_file {dir dir' : Directory} {bytes : List UInt8} {rows : List ChunkRow}
    (hrows : ∀ f : File, f ∈ dir'.rows ↔
      (f ∈ dir.rows ∧ f.1 ≠ sessionFile session.id) ∨ f = (sessionFile session.id, bytes))
    {p : PersistedSession} (hload : loadFile host (sessionFile session.id) bytes = .ok p)
    {m : PersistedSessionMeta} (hmeta : metaFromFile host (sessionFile session.id) bytes = .ok m)
    (hpath : m.path = sessionFile session.id) (hcount : m.chunkCount = rows.length)
    (hclosed : m.closed = true) (haware : m.createdAt.Aware) :
    RoundTrips host session rows dir' ↔ Restored session rows p ∧
      ∀ f ∈ dir.rows, f.1 ≠ sessionFile session.id → Listed host f := by
  have hmem : (sessionFile session.id, bytes) ∈ dir'.rows := (hrows _).mpr (Or.inr rfl)
  have hread := read_of_mem hrows
  have hsession : ∀ path ∈ [none, some (sessionFile session.id)],
      loadSession host dir' session.id path = .ok p := by
    intro path hmem
    have htarget : path.getD (sessionFile session.id) = sessionFile session.id := by
      rcases List.mem_cons.mp hmem with rfl | hmem
      · rfl
      · rw [List.mem_singleton.mp hmem]
        rfl
    rw [loadSession, htarget, hread]
    exact hload
  constructor
  · intro h
    obtain ⟨p', hp', hrestored⟩ := h.load none List.mem_cons_self
    obtain rfl : p = p' := Except.ok.inj ((hsession none List.mem_cons_self).symm.trans hp')
    obtain ⟨metas, hlist, hreported⟩ := h.list
    refine ⟨hrestored, fun f hf hne => ?_⟩
    have hown : m ∈ metas := by
      obtain ⟨metas', hmetas, hsort⟩ := exists_of_bind_eq_ok hlist
      unfold sortMetas at hsort
      split_ifs at hsort
      cases hsort
      rw [List.mem_mergeSort, (metasOfFiles_eq_ok host hmetas).2]
      exact ⟨_, List.mem_mergeSort.mpr hmem, isSessionFile_sessionFile session.id, hmeta⟩
    obtain ⟨hlisted, -⟩ := listPersistedSessions_eq_ok host hlist ⟨m, hown, haware⟩
    exact hlisted f ((hrows f).mpr (Or.inl ⟨hf, hne⟩))
  · rintro ⟨hrestored, hothers⟩
    have hlisted : ∀ f ∈ dir'.rows, Listed host f := by
      intro f hf
      rcases (hrows f).mp hf with ⟨hf, hne⟩ | rfl
      · exact hothers f hf hne
      · intro _
        rw [hmeta]
        exact haware
    obtain ⟨metas, hlist, hmetas⟩ := exists_listPersistedSessions host hlisted
    have hunique : ∀ m' ∈ metas, m'.path = sessionFile session.id → m' = m := by
      intro m' hm' hpath'
      obtain ⟨f, hf, hfile, hmeta'⟩ := (hmetas m').mp hm'
      rcases (hrows f).mp hf with ⟨-, hne⟩ | rfl
      · exact absurd ((path_of_metaFromFile host hmeta').symm.trans hpath') hne
      · exact Except.ok.inj (hmeta'.symm.trans hmeta)
    refine ⟨fun path hpath' => ⟨p, hsession path hpath', hrestored⟩, metas, hlist, ?_, ?_, ?_⟩
    · exact ⟨m, (hmetas m).mpr ⟨_, hmem, isSessionFile_sessionFile session.id, hmeta⟩, hpath⟩
    · intro m' hm' hpath'
      rw [hunique m' hm' hpath', hcount]
    · intro m' hm' hpath'
      rw [hunique m' hm' hpath', hclosed]

/-- A file is read as it was written exactly if the session is storable, no string in its records
has a separator, and the listing gets past the other files. -/
theorem roundTrips_iff (sandboxHandleId : Option String) (rows : List (ℤ × ChunkRow))
    (createdAt closedAt : Clock) (dir : Directory)
    (hnew : dir.read (sessionPartialFile session.id) = none)
    (hback : host.ReadsBack session createdAt)
    (hloads : ∀ record ∈ sessionRecords host session sandboxHandleId rows (.utc createdAt)
      (.utc closedAt), loads host.floats (dumps host.floats (.obj record)) = .ok (.obj record)) :
    ∃ dir', SessionWriter.persist host session sandboxHandleId rows (.utc createdAt)
        (.utc closedAt) dir = .ok dir' ∧
      (RoundTrips host session (rows.map Prod.snd) dir' ↔
        Storable host session ∧
        (∀ record ∈ sessionRecords host session sandboxHandleId rows (.utc createdAt)
          (.utc closedAt), (Json.obj record).OneLine) ∧
        ∀ f ∈ dir.rows, f.1 ≠ sessionFile session.id → Listed host f) := by
  obtain ⟨dir', hpersist, hrows⟩ := SessionWriter.persist_eq host session sandboxHandleId rows
    (.utc createdAt) (.utc closedAt) dir hnew
  refine ⟨dir', hpersist, ?_⟩
  have hfile := @loadFile_sessionRecords_iff host (sessionFile session.id) session sandboxHandleId
    createdAt closedAt hback rows hloads
  have hmeta := @metaFromFile_eq_ok_iff host (sessionFile session.id) session sandboxHandleId
    createdAt closedAt hback rows hloads
  have hstorable := @restored_iff host session (sessionFile session.id) sandboxHandleId
    (rows.map Prod.snd) rows.length createdAt closedAt
  have haware : (Datetime.utc createdAt).Aware := (Datetime.isUtc_utc createdAt).aware
  generalize encode (recordsText host (sessionRecords host session sandboxHandleId rows
    (.utc createdAt) (.utc closedAt))) = bytes at hrows hfile hmeta
  constructor
  · intro h
    obtain ⟨p, hload, hrestored⟩ := h.load (some (sessionFile session.id)) (by simp)
    have hread := read_of_mem hrows
    have hload' : loadFile host (sessionFile session.id) bytes = .ok p := by
      rw [loadSession, Option.getD_some, hread] at hload
      exact hload
    obtain ⟨hone, spec, hspec, rfl⟩ := hfile.mp hload'
    have hown := hmeta.mpr ⟨⟨spec, hspec⟩, rfl⟩
    obtain ⟨-, hothers⟩ := (roundTrips_of_file host session hrows hload' hown rfl
      (List.length_map _).symm rfl haware).mp h
    exact ⟨hstorable.mp ⟨spec, hspec, hrestored⟩, hone, hothers⟩
  · rintro ⟨hstore, hone, hothers⟩
    obtain ⟨spec, hspec, hrestored⟩ := hstorable.mpr hstore
    have hload := hfile.mpr ⟨hone, spec, hspec, rfl⟩
    have hown := hmeta.mpr ⟨⟨spec, hspec⟩, rfl⟩
    exact (roundTrips_of_file host session hrows hload hown rfl (List.length_map _).symm rfl
      haware).mpr ⟨hrestored, hothers⟩

end RoundTrips

/-! ### A session -/

section Sample

/-- A host that reads one identifier and one time. -/
def sampleHost : Host where
  floats := ⟨fun _ => "0.0".toList, fun _ => 0, fun _ => forall_mem_of_all (by decide)⟩
  texts := ⟨fun _ => "", fun _ => ""⟩
  readings :=
    { uuid := fun text => if text = (⟨7⟩ : UUID).str then .ok ⟨7⟩
        else .error (.store (.valueError "badly formed hexadecimal UUID string"))
      datetime := fun text => if text = isoformatUtc (.utc ⟨0, wall_pos⟩)
        then .ok (.utc ⟨0, wall_pos⟩) else .error (.store (.valueError "Invalid isoformat string"))
      lower := id
      isHex := fun _ => false }
  exceptionText := fun _ => ""
  decodeError := fun _ => ""
  intOfText := fun _ => .error (.store (.valueError "invalid literal for int()"))
  floatOf := fun _ => .error (.other "TypeError" "")
  totalSeconds := fun _ => 0

/-- A session with a value among its extras and with counts of tokens. -/
def sampleSession : Session where
  id := ⟨7⟩
  parentSessionIds := []
  lineageOperator := "user"
  lineageKind := .leafUser
  lineageExtras := [("turn", .json (.int 1))]
  sandboxBackend := some "local"
  sandboxOpenSpec := none
  cumulativeUsage := some ⟨3, 4, 7, none, none⟩

/-- A row with a text. -/
def sampleRows (text : String) : List (ℤ × ChunkRow) := [(0, ⟨.user, [("content", .str text)]⟩)]

theorem sampleHost_readsBack : sampleHost.ReadsBack sampleSession ⟨0, by decide⟩ :=
  ⟨by decide +kernel, by decide +kernel, by decide +kernel⟩

/-- A text with letters outside ASCII makes the round trip. -/
theorem roundTrips_iff_sample : ∃ dir', SessionWriter.persist sampleHost sampleSession none
    (sampleRows "gr\u00FC\u00DFe") (.utc ⟨0, by decide⟩) (.utc ⟨0, by decide⟩) Table.empty =
      .ok dir' ∧ RoundTrips sampleHost sampleSession
        [⟨.user, [("content", .str "gr\u00FC\u00DFe")]⟩] dir' := by
  obtain ⟨dir', hpersist, hiff⟩ := roundTrips_iff sampleHost sampleSession none
    (sampleRows "gr\u00FC\u00DFe") ⟨0, by decide⟩ ⟨0, by decide⟩ Table.empty rfl
    sampleHost_readsBack (by decide +kernel)
  refine ⟨dir', hpersist, hiff.mpr ⟨?_, by decide +kernel, by simp⟩⟩
  exact ⟨by simp [sampleSession], by simp [sampleSession], by simp [sampleSession]⟩

/-- A text with a line separator does not. -/
theorem not_roundTrips_separator : ∃ dir', SessionWriter.persist sampleHost sampleSession none
    (sampleRows "first\u2028second") (.utc ⟨0, by decide⟩) (.utc ⟨0, by decide⟩) Table.empty =
      .ok dir' ∧ ¬ RoundTrips sampleHost sampleSession
        [⟨.user, [("content", .str "first\u2028second")]⟩] dir' := by
  obtain ⟨dir', hpersist, hrows⟩ := SessionWriter.persist_eq sampleHost sampleSession none
    (sampleRows "first\u2028second") (.utc ⟨0, by decide⟩) (.utc ⟨0, by decide⟩) Table.empty rfl
  refine ⟨dir', hpersist, fun h => ?_⟩
  obtain ⟨p, hload, -⟩ := h.load none List.mem_cons_self
  have hread := read_of_mem hrows
  rw [loadSession, Option.getD_none, hread] at hload
  obtain ⟨hone, -⟩ := (loadFile_sessionRecords_iff sampleHost_readsBack
    (by decide +kernel)).mp hload
  exact absurd hone (by decide +kernel)

end Sample

end OpenRath
