import OpenRath.Library.JsonRoundTrip
import OpenRath.Session.Persistence.RoundTrip

/-!
# Torn writes

A crash may cut the file of a session off at any byte. The lines that are completely contained in
what is left are read as their records and a further line is dropped, but only if the file is cut
off between two characters: the whole file is decoded before it is taken apart.

## Main definitions

* `containedLines`: how many lines are completely contained in a number of bytes.

## Main results

* `exists_of_isPrefix_recordsText`: an initial part of the text of records.
* `load_torn_iff`.
-/

namespace OpenRath

open TextFile

/-- How many lines are completely contained in a number of bytes. -/
def containedLines : List (List Char) → ℕ → ℕ
  | [], _ => 0
  | line :: lines, n =>
    if (encode line).length ≤ n then containedLines lines (n - (encode line).length) + 1 else 0

theorem encode_length_lt {s t : List Char} (h : s <+: t) (hne : s ≠ t) :
    (encode s).length < (encode t).length := by
  obtain ⟨u, rfl⟩ := h
  cases u with
  | nil => exact absurd (List.append_nil s).symm hne
  | cons c u =>
    have hc : 0 < (String.utf8EncodeChar c).length := by
      rw [String.length_utf8EncodeChar]
      exact c.utf8Size_pos
    rw [encode_append, List.length_append, encode, encode, List.flatMap_cons, List.length_append]
    omega

section Torn

variable (host : Host)

/-- An initial part of the text of records consists of complete lines, which are those that its
bytes contain, and of the beginning of a further line. -/
theorem exists_of_isPrefix_recordsText {records : List JsonObject} {s : List Char}
    (hs : s <+: recordsText host records) :
    ∃ t, s = recordsText host (records.take
      (containedLines (records.map (recordLine host)) (encode s).length)) ++ t ∧ '\n' ∉ t ∧
        '\r' ∉ t := by
  induction records generalizing s with
  | nil =>
    refine ⟨[], ?_, by simp, by simp⟩
    rw [List.prefix_nil.mp hs]
    rfl
  | cons record records ih =>
    have htext : recordsText host (record :: records) =
        recordLine host record ++ recordsText host records := rfl
    rw [htext] at hs
    by_cases hline : recordLine host record <+: s
    · obtain ⟨s, rfl⟩ := hline
      obtain ⟨t, ht, hnewline, hreturn⟩ := ih ((List.prefix_append_right_inj _).mp hs)
      refine ⟨t, ?_, hnewline, hreturn⟩
      rw [List.map_cons, containedLines, encode_append, List.length_append,
        if_pos (Nat.le_add_right _ _), Nat.add_sub_cancel_left, List.take_succ_cons]
      refine (congrArg (recordLine host record ++ ·) ht).trans ?_
      rw [← List.append_assoc]
      rfl
    · have hstart : s <+: recordLine host record :=
        (List.prefix_or_prefix_of_prefix hs (List.prefix_append _ _)).resolve_right hline
      have hne : s ≠ recordLine host record := by
        rintro rfl
        exact hline List.prefix_rfl
      have hshort := encode_length_lt hstart hne
      have hdumps : s <+: dumps host.floats (.obj record) :=
        (List.prefix_concat_iff.mp hstart).resolve_left hne
      refine ⟨s, ?_, fun h => ?_, fun h => ?_⟩
      · rw [List.map_cons, containedLines, if_neg (by omega)]
        rfl
      · exact newline_not_mem_dumps host _ (hdumps.subset h)
      · exact absurd (le_toNat_of_mem_dumps host.floats _ _ (hdumps.subset h)) (by decide)

theorem containedLines_le (lines : List (List Char)) (n : ℕ) :
    containedLines lines n ≤ lines.length := by
  induction lines generalizing n with
  | nil => exact Nat.le_refl _
  | cons line lines ih =>
    rw [containedLines]
    split_ifs
    · exact Nat.succ_le_succ (ih _)
    · exact Nat.zero_le _

/-- When an initial part of the bytes of records is read, and with what: it ends between two
characters, and the records whose lines it contains can be read. -/
theorem loadFile_of_isPrefix {path : String} {bytes : List UInt8} {records : List JsonObject}
    (hbytes : bytes <+: encode (recordsText host records))
    (hloads : ∀ record ∈ records.take
        (containedLines (records.map (recordLine host)) bytes.length),
      loads host.floats (dumps host.floats (.obj record)) = .ok (.obj record))
    {p : PersistedSession} :
    loadFile host path bytes = .ok p ↔
      (∃ s, s <+: recordsText host records ∧ encode s = bytes) ∧
        (∀ record ∈ records.take (containedLines (records.map (recordLine host)) bytes.length),
          (Json.obj record).OneLine) ∧
        (foldLines (loadRecord host path) 1 .start (records.take
          (containedLines (records.map (recordLine host)) bytes.length)) >>=
            Loading.result path) = .ok p := by
  have hload : ∀ s, s <+: recordsText host records → encode s = bytes →
      (loadFile host path bytes = .ok p ↔
        (∀ record ∈ records.take (containedLines (records.map (recordLine host)) bytes.length),
          (Json.obj record).OneLine) ∧
        (foldLines (loadRecord host path) 1 .start (records.take
          (containedLines (records.map (recordLine host)) bytes.length)) >>=
            Loading.result path) = .ok p) := by
    intro s hs hencode
    obtain ⟨t, ht, hnewline, hreturn⟩ := exists_of_isPrefix_recordsText host hs
    rw [hencode] at ht
    have hsreturn : '\r' ∉ s := by
      rw [ht]
      intro h
      rcases List.mem_append.mp h with h | h
      · exact return_not_mem_recordsText host _ h
      · exact hreturn h
    rw [loadFile, ← hencode, readText_encode hsreturn, hencode]
    dsimp only
    rw [ht]
    constructor
    · intro h
      obtain ⟨l, hlines, hresult⟩ := exists_of_bind_eq_ok h
      obtain ⟨hone, hrecords⟩ := (foldLines_splitlines hnewline hreturn hloads).mp hlines
      exact ⟨hone, by rw [hrecords]; exact hresult⟩
    · rintro ⟨hone, h⟩
      obtain ⟨l, hrecords, hresult⟩ := exists_of_bind_eq_ok h
      rw [(foldLines_splitlines hnewline hreturn hloads).mpr ⟨hone, hrecords⟩]
      exact hresult
  constructor
  · intro hp
    obtain ⟨s, hdecode⟩ : ∃ s, decode bytes = some s := by
      unfold loadFile readText at hp
      cases hdecode : decode bytes with
      | none =>
        rw [hdecode] at hp
        cases hp
      | some s => exact ⟨s, rfl⟩
    have hencode : encode s = bytes := (decode_eq_some_iff.mp hdecode).symm
    have hs : s <+: recordsText host records := by
      obtain ⟨rest, hrest⟩ := hbytes
      rw [← hencode] at hrest
      exact isPrefix_of_encode_append hrest
    exact ⟨⟨s, hs, hencode⟩, (hload s hs hencode).mp hp⟩
  · rintro ⟨⟨s, hs, hencode⟩, h⟩
    exact (hload s hs hencode).mpr h

/-! ### The records in a file -/

/-- The bytes that contain all lines contain their text. -/
theorem length_le_of_containedLines {lines : List (List Char)} {n : ℕ}
    (h : containedLines lines n = lines.length) : (encode lines.flatten).length ≤ n := by
  induction lines generalizing n with
  | nil => exact Nat.zero_le n
  | cons line lines ih =>
    rw [containedLines] at h
    split_ifs at h with hline
    · have hrest := ih (Nat.succ_injective h)
      rw [List.flatten_cons, encode_append, List.length_append]
      omega

theorem containedLines_eq_length {lines : List (List Char)} {n : ℕ}
    (h : (encode lines.flatten).length ≤ n) : containedLines lines n = lines.length := by
  induction lines generalizing n with
  | nil => rfl
  | cons line lines ih =>
    rw [List.flatten_cons, encode_append, List.length_append] at h
    rw [containedLines, if_pos (by omega), ih (by omega), List.length_cons]

/-- The complete lines of an initial part of the bytes of records are those that it contains. -/
theorem byteLines_of_isPrefix {bytes : List UInt8} {records : List JsonObject}
    (hbytes : bytes <+: encode (recordsText host records)) :
    byteLines bytes =
      (records.take (containedLines (records.map (recordLine host)) bytes.length)).map
        fun record => encode (dumps host.floats (.obj record)) := by
  induction records generalizing bytes with
  | nil =>
    rw [List.prefix_nil.mp hbytes]
    rfl
  | cons record records ih =>
    have hdumps : (10 : UInt8) ∉ encode (dumps host.floats (.obj record)) :=
      newline_not_mem_encode (newline_not_mem_dumps host (.obj record))
    have hline : encode (recordLine host record) =
        encode (dumps host.floats (.obj record)) ++ [10] := by
      rw [recordLine, encode_append]
      rfl
    have htext : encode (recordsText host (record :: records)) =
        encode (recordLine host record) ++ encode (recordsText host records) := by
      rw [← encode_append]
      rfl
    rw [htext] at hbytes
    rw [List.map_cons, containedLines]
    split_ifs with hlength
    · obtain ⟨rest, rfl⟩ := List.prefix_of_prefix_length_le (List.prefix_append _ _) hbytes hlength
      rw [List.length_append, Nat.add_sub_cancel_left, List.take_succ_cons, List.map_cons,
        ← ih ((List.prefix_append_right_inj _).mp hbytes), hline, List.append_assoc,
        List.singleton_append, byteLines_append_cons hdumps]
    · have hstart : bytes <+: encode (dumps host.floats (.obj record)) := by
        have hstart := List.prefix_of_prefix_length_le hbytes (List.prefix_append _ _)
          (Nat.le_of_not_le hlength)
        rw [hline] at hstart hlength
        refine (List.prefix_concat_iff.mp hstart).resolve_left fun heq => hlength ?_
        rw [heq]
      rw [byteLines_of_not_mem fun h => hdumps (hstart.subset h)]
      rfl

/-- The records in the complete lines of a file. -/
def recordsIn (bytes : List UInt8) : List JsonObject :=
  (byteLines bytes).filterMap fun line =>
    match (decode line).map (loads host.floats) with
    | some (.ok (.obj record)) => some record
    | _ => none

/-- The chunk records in the complete lines of a file. -/
def chunkRecordsIn (bytes : List UInt8) : List JsonObject :=
  (recordsIn host bytes).filter fun record => record.getD "record_type" = .str "chunk"

theorem recordsIn_of_isPrefix {bytes : List UInt8} {records : List JsonObject}
    (hbytes : bytes <+: encode (recordsText host records))
    (hloads : ∀ record ∈ records,
      loads host.floats (dumps host.floats (.obj record)) = .ok (.obj record)) :
    recordsIn host bytes =
      records.take (containedLines (records.map (recordLine host)) bytes.length) := by
  rw [recordsIn, byteLines_of_isPrefix host hbytes, List.filterMap_map]
  have hread : ∀ record ∈ records.take
      (containedLines (records.map (recordLine host)) bytes.length),
      ((fun line => match (decode line).map (loads host.floats) with
        | some (.ok (.obj record)) => some record
        | _ => none) ∘ fun record => encode (dumps host.floats (.obj record))) record =
        some record := by
    intro record hrecord
    simp [decode_encode, hloads record (List.mem_of_mem_take hrecord)]
  rw [List.filterMap_congr hread, List.filterMap_some]

/-- No record that is no trailer closes a session. -/
theorem trailer_of_foldLines {path : String} {records : List JsonObject} {n : ℕ} {s s' : Loading}
    (hrecords : ∀ record ∈ records, record.getD "record_type" ≠ .str "trailer")
    (h : foldLines (loadRecord host path) n s records = .ok s') : s'.trailer = s.trailer := by
  induction records generalizing n s with
  | nil =>
    cases h
    rfl
  | cons record records ih =>
    obtain ⟨hrecord, hrecords⟩ := List.forall_mem_cons.mp hrecords
    obtain ⟨t, ht, hrest⟩ := exists_of_bind_eq_ok h
    rw [ih hrecords hrest]
    rw [loadRecord] at ht
    split_ifs at ht
    · obtain ⟨-, -, ht⟩ := exists_of_bind_eq_ok ht
      obtain ⟨header, -, ht⟩ := exists_of_bind_eq_ok ht
      cases ht
      rfl
    · obtain ⟨row, -, ht⟩ := exists_of_bind_eq_ok ht
      cases ht
      rfl

variable (session : Session) (sandboxHandleId : Option String) (rows : List (ℤ × ChunkRow))
  (createdAt closedAt : Clock) (closed : Bool)

/-- The records that a writer has written up to a line are those of a writer that has written
fewer rows. -/
theorem take_writtenRecords {k : ℕ} (hk : 1 ≤ k) :
    (writtenRecords host session sandboxHandleId rows rows.length createdAt closedAt closed).take k
      = writtenRecords host session sandboxHandleId (rows.take (k - 1)) rows.length createdAt
        closedAt (closed && decide (rows.length + 2 ≤ k)) := by
  obtain ⟨k, rfl⟩ : ∃ j, k = j + 1 := ⟨k - 1, by omega⟩
  have htrailers : (trailers session rows.length closedAt closed).take (k - rows.length) =
      trailers session rows.length closedAt (closed && decide (rows.length + 2 ≤ k + 1)) := by
    cases closed with
    | false => exact List.take_nil
    | true =>
      rw [Bool.true_and, trailers, if_pos rfl, trailers]
      by_cases hk : rows.length + 2 ≤ k + 1
      · obtain ⟨j, hj⟩ : ∃ j, k - rows.length = j + 1 := ⟨k - rows.length - 1, by omega⟩
        rw [if_pos (decide_eq_true hk), hj, List.take_succ_cons, List.take_nil]
      · rw [if_neg (by simpa using hk), show k - rows.length = 0 by omega, List.take_zero]
  rw [writtenRecords, List.take_succ_cons, List.take_append, Nat.add_sub_cancel, chunkRecords,
    List.length_map, htrailers, ← List.map_take]
  rfl

/-- The timeout of the sandbox is one that Python converts back, to the same one or not. -/
def TimeoutReads : Prop :=
  ∀ spec ∈ session.sandboxOpenSpec, ∀ us ∈ spec.timeout,
    ∃ us', timedelta (.ofDouble (host.totalSeconds us)) = .ok us'

theorem exists_readSpec_iff : (∃ spec, readSpec host session = .ok spec) ↔
    TimeoutReads host session := by
  rw [readSpec, specFromJsonable_specToJsonable, TimeoutReads]
  cases session.sandboxOpenSpec with
  | none => simp
  | some spec =>
    obtain ⟨image, entrypoint, env, timeout, workingDir⟩ := spec
    cases timeout with
    | none => simp [readTimeout, Except.map]
    | some us =>
      cases htimeout : timedelta (.ofDouble (host.totalSeconds us)) <;>
        simp [readTimeout, Except.map, htimeout]

/-- A file is read up to a number of lines: the rows in them, and closed if the trailer is one of
them. -/
structure ReadUpTo (lines : ℕ) (p : PersistedSession) : Prop where
  rows_eq : p.rows = (rows.take (lines - 1)).map Prod.snd
  closed_iff : p.closed = true ↔ closed = true ∧ lines = rows.length + 2

/-- The file of a writer that is cut off behind its header is read up to the lines that are
completely contained in what is left exactly if it is cut off between two characters, no string in
these lines has a separator, and Python converts the timeout of the sandbox. -/
theorem load_torn_iff {path : String} {bytes : List UInt8}
    (hbytes : bytes <+: encode (recordsText host (writtenRecords host session sandboxHandleId rows
      rows.length createdAt closedAt closed)))
    (hheader : (encode (recordLine host (buildHeader host session sandboxHandleId
      (.utc createdAt)))).length ≤ bytes.length)
    (hback : host.ReadsBack session createdAt)
    (hloadable : ∀ record ∈ writtenRecords host session sandboxHandleId rows rows.length createdAt
      closedAt closed, (Json.obj record).Loadable host.floats) :
    let records := writtenRecords host session sandboxHandleId rows rows.length createdAt closedAt
      closed
    let lines := containedLines (records.map (recordLine host)) bytes.length
    (∃ p, loadFile host path bytes = .ok p ∧ ReadUpTo rows closed lines p) ↔
      (∃ s, s <+: recordsText host records ∧ encode s = bytes) ∧
        (∀ record ∈ records.take lines, (Json.obj record).OneLine) ∧ TimeoutReads host session := by
  intro records lines
  have hlines : 1 ≤ lines := by
    have hpos : 1 ≤ containedLines (records.map (recordLine host)) bytes.length := by
      rw [show records.map (recordLine host) = recordLine host (buildHeader host session
        sandboxHandleId (.utc createdAt)) :: _ from rfl, containedLines, if_pos hheader]
      exact Nat.le_add_left _ _
    exact hpos
  have hle : lines ≤ rows.length + 2 := by
    have hcount := containedLines_le (records.map (recordLine host)) bytes.length
    have htrailers : (trailers session rows.length closedAt closed).length ≤ 1 := by
      cases closed <;> simp [trailers]
    have hlength : records.length =
        rows.length + (trailers session rows.length closedAt closed).length + 1 := by
      simp [records, writtenRecords, chunkRecords]
    rw [List.length_map] at hcount
    exact hcount.trans (by omega)
  have htake := take_writtenRecords host session sandboxHandleId rows createdAt closedAt closed
    hlines
  have hloads : ∀ record ∈ records.take lines,
      loads host.floats (dumps host.floats (.obj record)) = .ok (.obj record) :=
    fun record hrecord => loads_dumps host.floats (hloadable record (List.mem_of_mem_take hrecord))
  have hresult : ∀ p, (foldLines (loadRecord host path) 1 .start (records.take lines) >>=
      Loading.result path) = .ok p ↔ ∃ spec, readSpec host session = .ok spec ∧
        p = persistedOf path session sandboxHandleId ((rows.take (lines - 1)).map Prod.snd)
          rows.length createdAt closedAt (closed && decide (rows.length + 2 ≤ lines)) spec := by
    intro p
    rw [htake]
    exact foldLines_writtenRecords hback
  constructor
  · rintro ⟨p, hp, -⟩
    obtain ⟨hcut, hone, hfold⟩ := (loadFile_of_isPrefix host hbytes hloads).mp hp
    obtain ⟨spec, hspec, -⟩ := (hresult p).mp hfold
    exact ⟨hcut, hone, (exists_readSpec_iff host session).mp ⟨spec, hspec⟩⟩
  · rintro ⟨hcut, hone, htimeout⟩
    obtain ⟨spec, hspec⟩ := (exists_readSpec_iff host session).mpr htimeout
    have hp := (loadFile_of_isPrefix host hbytes hloads).mpr
      ⟨hcut, hone, (hresult _).mpr ⟨spec, hspec, rfl⟩⟩
    refine ⟨_, hp, rfl, ?_⟩
    rw [persistedOf, Bool.and_eq_true, decide_eq_true_eq]
    refine and_congr_right fun _ => ?_
    omega

end Torn

/-! ### The bytes of a file -/

section FileBytes

variable (host : Host) (session : Session) (sandboxHandleId : Option String) (createdAt : Clock)

/-- The file with the rows, and with the trailer or without it. -/
def fileBytes (rows : List (ℤ × ChunkRow)) (closedAt : Clock) (closed : Bool) : List UInt8 :=
  encode (recordsText host (writtenRecords host session sandboxHandleId rows rows.length createdAt
    closedAt closed))

theorem fileBytes_concat (rows : List (ℤ × ChunkRow)) (r : ℤ × ChunkRow) (closedAt : Clock) :
    fileBytes host session sandboxHandleId createdAt (rows ++ [r]) closedAt false =
      fileBytes host session sandboxHandleId createdAt rows closedAt false ++
        encode (recordLine host (buildChunkRecord r.1 r.2)) := by
  simp [fileBytes, writtenRecords, trailers, recordsText, chunkRecords, List.append_assoc]

theorem fileBytes_closed (rows : List (ℤ × ChunkRow)) (closedAt : Clock) :
    fileBytes host session sandboxHandleId createdAt rows closedAt true =
      fileBytes host session sandboxHandleId createdAt rows closedAt false ++
        encode (recordLine host (buildTrailer session rows.length (.utc closedAt))) := by
  simp [fileBytes, writtenRecords, trailers, recordsText, List.append_assoc]

theorem fileBytes_false_eq (rows : List (ℤ × ChunkRow)) (closedAt closedAt' : Clock) :
    fileBytes host session sandboxHandleId createdAt rows closedAt false =
      fileBytes host session sandboxHandleId createdAt rows closedAt' false := by
  simp [fileBytes, writtenRecords, trailers]

theorem fileBytes_mono (rows rows' : List (ℤ × ChunkRow)) (closedAt : Clock) :
    fileBytes host session sandboxHandleId createdAt rows closedAt false <+:
      fileBytes host session sandboxHandleId createdAt (rows ++ rows') closedAt false := by
  induction rows' using List.reverseRecOn with
  | nil => rw [List.append_nil]
  | append_singleton rows' r ih =>
    rw [← List.append_assoc, fileBytes_concat]
    exact ih.trans (List.prefix_append _ _)

variable {host session sandboxHandleId createdAt} {rows : List (ℤ × ChunkRow)} {closedAt : Clock}
  {bytes : List UInt8}

theorem encode_recordLine_length_pos (record : JsonObject) :
    0 < (encode (recordLine host record)).length := by
  rw [recordLine, encode_append, List.length_append]
  exact Nat.lt_add_left _ (by decide)

theorem filter_writtenRecords (count : ℕ) (closed : Bool) :
    (writtenRecords host session sandboxHandleId rows count createdAt closedAt closed).filter
      (fun record => record.getD "record_type" = .str "chunk") = chunkRecords rows := by
  have hchunks : (chunkRecords rows).filter
      (fun record => record.getD "record_type" = .str "chunk") = chunkRecords rows := by
    refine List.filter_eq_self.mpr fun record hrecord => ?_
    obtain ⟨row, -, rfl⟩ := List.mem_map.mp hrecord
    rw [recordType_buildChunkRecord, decide_eq_true_eq]
  rw [writtenRecords, List.filter_cons_of_neg (by simp), List.filter_append, hchunks, trailers]
  cases closed <;> simp

/-- The chunk records of a prefix of a file are a prefix of its chunk records. -/
theorem chunkRecordsIn_of_isPrefix
    (hloadable : ∀ record ∈ writtenRecords host session sandboxHandleId rows rows.length createdAt
      closedAt true, (Json.obj record).Loadable host.floats)
    (hpre : bytes <+: fileBytes host session sandboxHandleId createdAt rows closedAt true) :
    chunkRecordsIn host bytes <+: chunkRecords rows := by
  rw [chunkRecordsIn, recordsIn_of_isPrefix host hpre fun record hrecord =>
      loads_dumps host.floats (hloadable record hrecord),
    ← @filter_writtenRecords host session sandboxHandleId createdAt rows closedAt rows.length true]
  exact (List.take_prefix _ _).filter _

theorem chunkRecordsIn_fileBytes
    (hloadable : ∀ record ∈ writtenRecords host session sandboxHandleId rows rows.length createdAt
      closedAt true, (Json.obj record).Loadable host.floats) :
    chunkRecordsIn host (fileBytes host session sandboxHandleId createdAt rows closedAt true) =
      chunkRecords rows := by
  have hall := containedLines_eq_length (Nat.le_refl (encode ((writtenRecords host session
    sandboxHandleId rows rows.length createdAt closedAt true).map
      (recordLine host)).flatten).length)
  rw [List.length_map] at hall
  rw [chunkRecordsIn, fileBytes,
    recordsIn_of_isPrefix host (List.prefix_refl _) fun record hrecord =>
      loads_dumps host.floats (hloadable record hrecord),
    recordsText, List.flatMap_def, hall, List.take_length, filter_writtenRecords]

/-- The rows that are read in a prefix of a file are the first ones. -/
theorem rows_of_loadFile {path : String} (hback : host.ReadsBack session createdAt)
    (hloadable : ∀ record ∈ writtenRecords host session sandboxHandleId rows rows.length createdAt
      closedAt true, (Json.obj record).Loadable host.floats)
    (hpre : bytes <+: fileBytes host session sandboxHandleId createdAt rows closedAt true)
    {p : PersistedSession} (h : loadFile host path bytes = .ok p) :
    p.rows <+: rows.map Prod.snd := by
  obtain ⟨-, -, hfold⟩ := (loadFile_of_isPrefix host hpre fun record hrecord =>
    loads_dumps host.floats (hloadable record (List.mem_of_mem_take hrecord))).mp h
  generalize containedLines ((writtenRecords host session sandboxHandleId rows rows.length
    createdAt closedAt true).map (recordLine host)) bytes.length = k at hfold
  cases k with
  | zero =>
    rw [List.take_zero] at hfold
    cases hfold
  | succ k =>
    rw [take_writtenRecords host session sandboxHandleId rows createdAt closedAt true
      (Nat.le_add_left 1 k), foldLines_writtenRecords hback] at hfold
    obtain ⟨spec, -, rfl⟩ := hfold
    exact (List.take_prefix _ rows).map Prod.snd

/-- What is loaded of a file. -/
theorem loadFile_fileBytes {path : String} {spec : Option BackendSandboxSpec} {closed : Bool}
    (hback : host.ReadsBack session createdAt)
    (hloadable : ∀ record ∈ writtenRecords host session sandboxHandleId rows rows.length createdAt
      closedAt closed, (Json.obj record).Loadable host.floats)
    (hone : ∀ record ∈ writtenRecords host session sandboxHandleId rows rows.length createdAt
      closedAt closed, (Json.obj record).OneLine)
    (hspec : readSpec host session = .ok spec) :
    loadFile host path (fileBytes host session sandboxHandleId createdAt rows closedAt closed) =
      .ok (persistedOf path session sandboxHandleId (rows.map Prod.snd) rows.length createdAt
        closedAt closed spec) := by
  rw [fileBytes, ← List.append_nil (recordsText host _)]
  exact (loadFile_eq_ok_iff hback List.not_mem_nil List.not_mem_nil fun record hrecord =>
    loads_dumps host.floats (hloadable record hrecord)).mpr ⟨hone, spec, hspec, rfl⟩

/-- A file without its whole trailer is not one of a closed session. -/
theorem closed_eq_false_of_isPrefix {path : String}
    (hloadable : ∀ record ∈ writtenRecords host session sandboxHandleId rows rows.length createdAt
      closedAt true, (Json.obj record).Loadable host.floats)
    (hpre : bytes <+: fileBytes host session sandboxHandleId createdAt rows closedAt true)
    (hshort : bytes.length <
      (fileBytes host session sandboxHandleId createdAt rows closedAt true).length)
    {p : PersistedSession} (h : loadFile host path bytes = .ok p) : p.closed = false := by
  obtain ⟨-, -, hfold⟩ := (loadFile_of_isPrefix host hpre fun record hrecord =>
    loads_dumps host.floats (hloadable record (List.mem_of_mem_take hrecord))).mp h
  generalize hk : containedLines ((writtenRecords host session sandboxHandleId rows rows.length
    createdAt closedAt true).map (recordLine host)) bytes.length = k at hfold
  have hcount : k < rows.length + 2 := by
    have hle := containedLines_le ((writtenRecords host session sandboxHandleId rows rows.length
      createdAt closedAt true).map (recordLine host)) bytes.length
    have hlength : (writtenRecords host session sandboxHandleId rows rows.length createdAt closedAt
        true).length = rows.length + 2 := by
      simp [writtenRecords, trailers, chunkRecords]
    rw [hk, List.length_map, hlength] at hle
    refine lt_of_le_of_ne hle fun heq => ?_
    refine absurd (length_le_of_containedLines (n := bytes.length) ?_) (Nat.not_le.mpr hshort)
    rw [hk, heq, List.length_map, hlength]
  obtain ⟨l, hlines, hresult⟩ := exists_of_bind_eq_ok hfold
  have htrailer : l.trailer = none := by
    refine trailer_of_foldLines host (fun record hrecord => ?_) hlines
    have htake : (writtenRecords host session sandboxHandleId rows rows.length createdAt closedAt
        true).take k <+: buildHeader host session sandboxHandleId (.utc createdAt) ::
          chunkRecords rows := by
      have hrows :
          buildHeader host session sandboxHandleId (.utc createdAt) :: chunkRecords rows <+:
          writtenRecords host session sandboxHandleId rows rows.length createdAt closedAt true :=
        ⟨trailers session rows.length closedAt true, rfl⟩
      refine List.prefix_of_prefix_length_le (List.take_prefix _ _) hrows ?_
      rw [List.length_take, List.length_cons, chunkRecords, List.length_map]
      omega
    rcases List.mem_cons.mp (htake.subset hrecord) with rfl | hchunk
    · rw [recordType_buildHeader]
      decide
    · obtain ⟨row, -, rfl⟩ := List.mem_map.mp hchunk
      rw [recordType_buildChunkRecord]
      decide
  unfold Loading.result at hresult
  split at hresult
  · cases hresult
  · cases hresult
    rw [htrailer]
    rfl

end FileBytes

/-! ### A session -/

section Sample

/-- The records of two rows, and of the trailer. -/
def sampleRecords : List JsonObject :=
  writtenRecords sampleHost sampleSession none (sampleRows "gr\u00FC\u00DFe" ++ sampleRows "x") 2
    ⟨0, wall_pos⟩ ⟨0, wall_pos⟩ true

theorem sampleRecords_loadable :
    ∀ record ∈ sampleRecords, (Json.obj record).Loadable sampleHost.floats := by
  have hdigits : ∀ n ∈ [0, 1, 2, 3, 4, 7], (dumpsInt n).countP Char.isDigit ≤ 4300 := by decide
  simp [sampleRecords, writtenRecords, trailers, buildHeader, buildChunkRecord, buildTrailer,
    chunkRecords, sampleRows, sampleSession, lineageExtrasToJsonable, ExtraValue.jsonable,
    Json.ofText?, specToJsonable, cumulativeUsageToJsonable, schemaVersion, Json.Loadable,
    LoadableFields, LoadableItems, hdigits]

/-- A file that is cut off behind the first character of the second row is read with the first
row. -/
theorem load_torn_iff_sample : ∃ p, loadFile sampleHost "" (encode (recordsText sampleHost
      (sampleRecords.take 2) ++ ['{'])) = .ok p ∧
    ReadUpTo (sampleRows "gr\u00FC\u00DFe" ++ sampleRows "x") true 2 p := by
  have hcut : recordsText sampleHost (sampleRecords.take 2) ++ ['{'] <+:
      recordsText sampleHost sampleRecords := by decide +kernel
  have hbytes : encode (recordsText sampleHost (sampleRecords.take 2) ++ ['{']) <+:
      encode (recordsText sampleHost sampleRecords) := by
    obtain ⟨t, ht⟩ := hcut
    exact ⟨encode t, by rw [← encode_append, ht]⟩
  have hlines : containedLines (sampleRecords.map (recordLine sampleHost))
      (encode (recordsText sampleHost (sampleRecords.take 2) ++ ['{'])).length = 2 := by
    decide +kernel
  have hone : ∀ record ∈ sampleRecords.take 2, (Json.obj record).OneLine := by decide +kernel
  have hiff := @load_torn_iff sampleHost sampleSession none
    (sampleRows "gr\u00FC\u00DFe" ++ sampleRows "x") ⟨0, by decide⟩ ⟨0, by decide⟩ true "" _
    hbytes (by decide +kernel) sampleHost_readsBack sampleRecords_loadable
  rw [show writtenRecords sampleHost sampleSession none
    (sampleRows "gr\u00FC\u00DFe" ++ sampleRows "x") (sampleRows "gr\u00FC\u00DFe" ++
      sampleRows "x").length ⟨0, by decide⟩ ⟨0, by decide⟩ true = sampleRecords from rfl] at hiff
  dsimp only at hiff
  rw [hlines] at hiff
  exact hiff.mpr ⟨⟨_, hcut, rfl⟩, hone, by simp [TimeoutReads, sampleSession]⟩

/-- A file that is cut off within the first letter that is not in ASCII is not read. -/
theorem load_torn_within_character : ∃ bytes, bytes <+: encode (recordsText sampleHost
      sampleRecords) ∧ (encode (recordsText sampleHost (sampleRecords.take 1))).length ≤
        bytes.length ∧
    loadFile sampleHost "" bytes = .error (.other "UnicodeDecodeError" "") := by
  have hsplit : recordsText sampleHost sampleRecords =
      (recordsText sampleHost sampleRecords).take 408 ++ '\u00FC' ::
        (recordsText sampleHost sampleRecords).drop 409 := by decide +kernel
  refine ⟨(encode (recordsText sampleHost sampleRecords)).take 409, List.take_prefix _ _,
    by decide +kernel, ?_⟩
  have hbytes := List.take_prefix 409 (encode (recordsText sampleHost sampleRecords))
  have hdecode : decode ((encode (recordsText sampleHost sampleRecords)).take 409) = none := by
    have hlength : ((encode (recordsText sampleHost sampleRecords)).take 409).length = 409 := by
      decide +kernel
    refine decode_eq_none (a := (recordsText sampleHost sampleRecords).take 408) ?_ ?_ ?_
      (c := '\u00FC') (b := (recordsText sampleHost sampleRecords).drop 409)
    · rw [← hsplit]
      exact hbytes
    · rw [hlength]
      decide +kernel
    · rw [hlength]
      decide +kernel
  rw [loadFile, readText, hdecode]
  rfl

end Sample

end OpenRath
