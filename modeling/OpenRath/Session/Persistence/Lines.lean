import OpenRath.Library.JsonLines
import OpenRath.Session.Persistence.Loader

/-!
# The lines of a session file

A record is written on one line, in which all control characters are escaped and all other
characters stand for themselves. The line is taken apart again by `splitlines` exactly if there is
a next line, a line separator or a paragraph separator in it, which it has within a string. The
first pieces are then dropped, because they do not end with a line feed, and the last one begins
within a string and is not JSON.

## Main definitions

* `isSeparator`, `Json.OneLine`.
* `LineReader`: a reader of lines as a reader of records.

## Main results

* `LineReader.foldLines_recordsText`: the lines of records are read as the records.
* `oneLine_of_load`: where `load_session` does not fail, no record has a separator.
-/

namespace OpenRath

open TextFile

/-! ### Separators -/

/-- The line boundaries that are not control characters below the space. -/
def isSeparator (c : Char) : Bool := c ∈ ['\u0085', '\u2028', '\u2029']

/-- There is no separator in any string of a value. -/
def Json.OneLine (v : Json) : Prop := ∀ s ∈ v.texts, ∀ c ∈ s.toList, isSeparator c = false

instance (v : Json) : Decidable v.OneLine :=
  decidable_of_iff (v.texts.all (fun s => s.toList.all fun c => !isSeparator c) = true) <| by
    simp only [List.all_eq_true, Bool.not_eq_true', Json.OneLine]

/-- A line boundary is a control character or a separator. -/
theorem isLineBoundary_eq {c : Char} (hc : 0x20 ≤ c.toNat) :
    isLineBoundary c = isSeparator c := by
  have hcontrol : ∀ d ∈ ['\n', '\x0b', '\x0c', '\r', '\x1c', '\x1d', '\x1e'], c ≠ d := by
    intro d hd hcd
    have hlow : ∀ d ∈ ['\n', '\x0b', '\x0c', '\r', '\x1c', '\x1d', '\x1e'], d.toNat < 0x20 :=
      forall_mem_of_all (by decide)
    have hd' := hlow d hd
    rw [← hcd] at hd'
    omega
  simp only [List.forall_mem_cons, List.not_mem_nil, false_implies, implies_true,
    and_true] at hcontrol
  obtain ⟨h1, h2, h3, h4, h5, h6, h7⟩ := hcontrol
  simp [isLineBoundary, isSeparator, h1, h2, h3, h4, h5, h6, h7]

theorem isLineBoundary_of_isSeparator {c : Char} (h : isSeparator c = true) :
    isLineBoundary c = true := by
  simp only [isSeparator, List.mem_cons, List.not_mem_nil, or_false, decide_eq_true_eq] at h
  rcases h with rfl | rfl | rfl <;> decide

theorem isSeparator_eq_false_of_isNumeral {c : Char} (h : isNumeral c = true) :
    isSeparator c = false := by
  refine Bool.eq_false_iff.mpr fun hsep => ?_
  simp only [isSeparator, List.mem_cons, List.not_mem_nil, or_false, decide_eq_true_eq] at hsep
  rcases hsep with rfl | rfl | rfl <;> exact absurd h (by decide)

/-- What a character is written with has a separator only if the character is one. -/
theorem isSeparator_of_mem_escape {c d : Char} (hd : d ∈ escape c)
    (hsep : isSeparator d = true) : isSeparator c = true := by
  have hletter : ∀ d ∈ ['\\', '"', 'n', 'r', 't', 'b', 'f', 'u'], ¬ isSeparator d = true :=
    forall_mem_of_all (by decide)
  have hdigit : ∀ n < 16, ¬ isSeparator (Nat.digitChar n) = true := by decide
  rcases of_mem_escape hd with ⟨rfl, -⟩ | hd | ⟨n, hn, rfl⟩
  · exact hsep
  · exact absurd hsep (hletter d hd)
  · exact absurd hsep (hdigit n hn)

/-- A separator stands for itself. -/
theorem mem_escape_of_isSeparator {c : Char} (hsep : isSeparator c = true) : c ∈ escape c := by
  simp only [isSeparator, List.mem_cons, List.not_mem_nil, or_false, decide_eq_true_eq] at hsep
  rcases hsep with rfl | rfl | rfl <;> decide

section Dumps

variable (fl : FloatText)

/-- The text of a value has a separator exactly if one of its strings has one. -/
theorem oneLine_iff (v : Json) : v.OneLine ↔ ∀ c ∈ dumps fl v, isSeparator c = false := by
  constructor
  · intro h
    refine forall_mem_dumps fl ⟨fun _ hc => isSeparator_eq_false_of_isNumeral hc,
      forall_mem_of_all (by decide)⟩ v ?_
    intro s hs c hc d hd
    refine Bool.eq_false_iff.mpr fun hsep => ?_
    exact absurd (isSeparator_of_mem_escape hd hsep) (by simp [h s hs c hc])
  · intro h s hs c hc
    refine Bool.eq_false_iff.mpr fun hsep => ?_
    have hmem := mem_dumps fl hc (mem_escape_of_isSeparator hsep) v hs
    exact absurd hsep (by simp [h c hmem])

/-- The text of a value without separators is a single line. -/
theorem isLineBoundary_eq_false {v : Json} (h : v.OneLine) :
    ∀ c ∈ dumps fl v, isLineBoundary c = false := by
  intro c hc
  rw [isLineBoundary_eq (le_toNat_of_mem_dumps fl v c hc)]
  exact (oneLine_iff fl v).mp h c hc

end Dumps

/-- The last element of a list that satisfies a property. -/
theorem exists_last {α : Type} {P : α → Prop} [DecidablePred P] {l : List α}
    (h : ∃ x ∈ l, P x) : ∃ s x t, l = s ++ x :: t ∧ P x ∧ ∀ y ∈ t, ¬ P y := by
  induction l with
  | nil => simp at h
  | cons x l ih =>
    by_cases hl : ∃ y ∈ l, P y
    · obtain ⟨s, y, t, rfl, hy, ht⟩ := ih hl
      exact ⟨x :: s, y, t, rfl, hy, ht⟩
    · have hx : P x := by
        obtain ⟨y, hy, hP⟩ := h
        rcases List.mem_cons.mp hy with rfl | hy
        · exact hP
        · exact absurd ⟨y, hy, hP⟩ hl
      exact ⟨[], x, l, rfl, hx, fun y hy hP => hl ⟨y, hy, hP⟩⟩

/-! ### Readers of lines -/

section FoldLines

variable {σ α : Type} {f : ℕ → σ → α → Except Exn σ}

theorem foldLines_append (n : ℕ) (s : σ) (a b : List α) :
    foldLines f n s (a ++ b) =
      foldLines f n s a >>= fun s' => foldLines f (n + a.length) s' b := by
  induction a generalizing n s with
  | nil => rfl
  | cons x a ih =>
    rw [List.cons_append, foldLines, foldLines, bind_assoc]
    refine bind_congr fun s' => ?_
    rw [ih, List.length_cons, Nat.add_right_comm, Nat.add_assoc]

theorem foldLines_eq_self {lines : List α} (h : ∀ n s, ∀ line ∈ lines, f n s line = .ok s) (n : ℕ)
    (s : σ) : foldLines f n s lines = .ok s := by
  induction lines generalizing n with
  | nil => rfl
  | cons line lines ih =>
    rw [foldLines, h n s line List.mem_cons_self]
    exact ih (fun n s line hline => h n s line (List.mem_cons_of_mem _ hline)) (n + 1)

end FoldLines

section Lines

variable (host : Host)

/-- The text of a record in braces. -/
theorem dumps_obj (record : JsonObject) :
    dumps host.floats (.obj record) = '{' :: (dumpsFields host.floats true record ++ ['}']) := by
  rw [dumps]

theorem newline_not_mem_dumps (v : Json) : '\n' ∉ dumps host.floats v := fun h =>
  absurd (le_toNat_of_mem_dumps host.floats v _ h) (by decide)

theorem return_not_mem_recordsText (records : List JsonObject) :
    '\r' ∉ recordsText host records := by
  intro h
  obtain ⟨record, -, hmem⟩ := List.mem_flatMap.mp h
  rcases List.mem_append.mp hmem with hmem | hmem
  · exact absurd (le_toNat_of_mem_dumps host.floats _ _ hmem) (by decide)
  · exact absurd (List.mem_singleton.mp hmem) (by decide)

/-- A line that ends with a brace is stripped of the white space before it. -/
theorem stripLine_append (t : List Char) :
    stripLine (t ++ ['}'] ++ ['\n']) = (t ++ ['}']).dropWhile isSpace := by
  obtain ⟨u, hu⟩ : ∃ u, (t ++ ['}']).dropWhile isSpace = u ++ ['}'] := by
    rw [List.dropWhile_append]
    split
    · exact ⟨[], by decide⟩
    · exact ⟨_, rfl⟩
  rw [stripLine, List.rdropWhile_concat_pos _ _ _ (by decide),
    List.rdropWhile_concat_neg _ _ _ (by decide), hu,
    List.rdropWhile_concat_neg _ _ _ (by decide)]

theorem stripLine_recordLine (record : JsonObject) :
    stripLine (recordLine host record) = dumps host.floats (.obj record) := by
  rw [recordLine, dumps_obj, ← List.cons_append, stripLine_append]
  rfl

/-- A record with a separator is cut behind its last one. -/
theorem exists_pieces {record : JsonObject} (hone : ¬ (Json.obj record).OneLine) :
    ∃ a c b, dumps host.floats (.obj record) = a ++ c :: (b ++ ['}']) ∧ isSeparator c = true ∧
      '\n' ∉ a ++ [c] ∧ splitAfter isLineBoundary (recordLine host record) =
        splitAfter isLineBoundary (a ++ [c]) ++ [b ++ ['}'] ++ ['\n']] := by
  have hexists : ∃ c ∈ dumps host.floats (.obj record), isSeparator c = true := by
    by_contra hnone
    refine hone ((oneLine_iff host.floats _).mpr fun c hc => Bool.eq_false_iff.mpr fun hsep => ?_)
    exact hnone ⟨c, hc, hsep⟩
  obtain ⟨a, c, b, hsplit, hc, hb⟩ := exists_last hexists
  have hlow : ∀ d ∈ a ++ c :: b, 0x20 ≤ d.toNat := by
    rw [← hsplit]
    exact le_toNat_of_mem_dumps host.floats _
  obtain ⟨b, rfl⟩ : ∃ b', b = b' ++ ['}'] := by
    have hend : (a ++ c :: b).getLast? = some '}' := by
      rw [← hsplit, dumps_obj, ← List.cons_append, List.getLast?_append]
      rfl
    rcases List.eq_nil_or_concat b with rfl | ⟨b', d, rfl⟩
    · rw [List.getLast?_append, List.getLast?_singleton, Option.some_or, Option.some_inj] at hend
      exact absurd hc (by rw [hend]; decide)
    · rw [List.concat_eq_append, ← List.cons_append, ← List.append_assoc, List.getLast?_append,
        List.getLast?_singleton, Option.some_or, Option.some_inj] at hend
      exact ⟨b', by rw [List.concat_eq_append, hend]⟩
  refine ⟨a, c, b, hsplit, hc, fun hnl => ?_, ?_⟩
  · have hmem : '\n' ∈ a ++ c :: (b ++ ['}']) := by
      rcases List.mem_append.mp hnl with h | h
      · exact List.mem_append_left _ h
      · exact List.mem_append_right _ (List.mem_singleton.mp h ▸ List.mem_cons_self)
    exact absurd (hlow _ hmem) (by decide)
  · have hlast : splitAfter isLineBoundary ((b ++ ['}']) ++ ['\n']) =
        [b ++ ['}'] ++ ['\n']] := by
      refine splitAfter_append_singleton (fun d hd => ?_) (by decide)
      rw [isLineBoundary_eq (hlow d (List.mem_append_right _ (List.mem_cons_of_mem _ hd)))]
      exact Bool.eq_false_iff.mpr (hb d hd)
    rw [recordLine, hsplit, List.append_assoc, List.cons_append,
      splitAfter_append_cons _ _ (isLineBoundary_of_isSeparator hc), hlast]

/-- A reader of lines, as a reader `g` of records. -/
structure LineReader {σ : Type} (f : ℕ → σ → List Char → Except Exn σ)
    (g : ℕ → σ → JsonObject → Except Exn σ) : Prop where
  of_cut : ∀ n s line, line.getLast? ≠ some '\n' → f n s line = .ok s
  of_record : ∀ n s line record, line.getLast? = some '\n' →
    loads host.floats (stripLine line) = .ok (.obj record) → f n s line = g n s record
  of_not_json : ∀ n s line s', line.getLast? = some '\n' → stripLine line ≠ [] →
    (∀ v, loads host.floats (stripLine line) ≠ .ok v) → f n s line ≠ .ok s'

theorem ne_nil_of_loads {t : List Char} {v : Json} (h : loads host.floats t = .ok v) : t ≠ [] := by
  rintro rfl
  cases h

theorem loadLine_reader (path : String) :
    LineReader host (loadLine host path) (loadRecord host path) where
  of_cut n s line hline := by rw [loadLine, if_pos hline]
  of_record n s line record hline h := by
    rw [loadLine, if_neg (not_not.mpr hline)]
    dsimp only
    rw [if_neg (ne_nil_of_loads host h), readRecord, h]
    rfl
  of_not_json n s line s' hline hne h hload := by
    rw [loadLine, if_neg (not_not.mpr hline)] at hload
    dsimp only at hload
    rw [if_neg hne, readRecord] at hload
    cases hread : loads host.floats (stripLine line) with
    | error e =>
      rw [hread] at hload
      cases hload
    | ok v => exact h v hread

theorem metaLine_reader (path : String) :
    LineReader host (metaLine host path) (metaRecord host path) where
  of_cut n s line hline := by rw [metaLine, if_pos hline]
  of_record n s line record hline h := by
    rw [metaLine, if_neg (not_not.mpr hline)]
    dsimp only
    rw [if_neg (ne_nil_of_loads host h), readRecord, h]
    rfl
  of_not_json n s line s' hline hne h hload := by
    rw [metaLine, if_neg (not_not.mpr hline)] at hload
    dsimp only at hload
    rw [if_neg hne, readRecord] at hload
    cases hread : loads host.floats (stripLine line) with
    | error e =>
      rw [hread] at hload
      cases hload
    | ok v => exact h v hread

namespace LineReader

variable {host} {σ : Type} {f : ℕ → σ → List Char → Except Exn σ}
  {g : ℕ → σ → JsonObject → Except Exn σ} (hreader : LineReader host f g) {p : Char → Bool}

include hreader

/-- The pieces of a text without line feed are dropped. -/
theorem foldLines_cut {t : List Char} (ht : '\n' ∉ t) (n : ℕ) (s : σ) :
    foldLines f n s (splitAfter p t) = .ok s := by
  refine foldLines_eq_self (fun n s line hline => hreader.of_cut n s line fun hlast => ?_) n s
  exact ht (mem_of_mem_splitAfter hline (List.mem_of_getLast? hlast))

omit hreader in
/-- The line of a record that is a single piece. -/
theorem foldLines_recordLine (hp : p '\n' = true) {record : JsonObject}
    (hline : ∀ c ∈ dumps host.floats (.obj record), p c = false) (n : ℕ) (s : σ) :
    foldLines f n s (splitAfter p (recordLine host record)) =
      f n s (recordLine host record) := by
  rw [recordLine, splitAfter_append_singleton hline hp, foldLines]
  cases f n s (dumps host.floats (.obj record) ++ ['\n']) <;> rfl

theorem line_eq {record : JsonObject}
    (hloads : loads host.floats (dumps host.floats (.obj record)) = .ok (.obj record)) (n : ℕ)
    (s : σ) : f n s (recordLine host record) = g n s record :=
  hreader.of_record n s _ record (by simp [recordLine])
    (by rw [stripLine_recordLine, hloads])

omit hreader in
/-- The pieces of records and of what follows them. -/
theorem splitAfter_recordsText (hp : p '\n' = true) (record : JsonObject)
    (records : List JsonObject) (t : List Char) :
    splitAfter p (recordsText host (record :: records) ++ t) =
      splitAfter p (recordLine host record) ++ splitAfter p (recordsText host records ++ t) := by
  have hsplit := splitAfter_append_cons (dumps host.floats (.obj record))
    (recordsText host records ++ t) hp
  rw [recordLine, ← hsplit]
  simp [recordsText, recordLine]

/-- The lines of records are read as the records, where each line is a single piece. -/
theorem foldLines_recordsText (hp : p '\n' = true) {records : List JsonObject}
    (hline : ∀ record ∈ records, ∀ c ∈ dumps host.floats (.obj record), p c = false)
    (hloads : ∀ record ∈ records,
      loads host.floats (dumps host.floats (.obj record)) = .ok (.obj record))
    (t : List Char) (n : ℕ) (s : σ) :
    foldLines f n s (splitAfter p (recordsText host records ++ t)) =
      foldLines g n s records >>= fun s' =>
        foldLines f (n + records.length) s' (splitAfter p t) := by
  induction records generalizing n s with
  | nil => rfl
  | cons record records ih =>
    obtain ⟨hline, hlines⟩ := List.forall_mem_cons.mp hline
    obtain ⟨hload, hloads⟩ := List.forall_mem_cons.mp hloads
    have hpieces : splitAfter p (recordLine host record) = [recordLine host record] :=
      splitAfter_append_singleton hline hp
    rw [splitAfter_recordsText hp, foldLines_append, foldLines_recordLine hp hline,
      hreader.line_eq hload, foldLines, bind_assoc, hpieces]
    refine bind_congr fun s' => ?_
    rw [List.length_singleton, ih hlines hloads, List.length_cons, Nat.add_right_comm,
      Nat.add_assoc]

/-- The line of a record with a separator is not read. -/
theorem foldLines_ne_ok {record : JsonObject} (hone : ¬ (Json.obj record).OneLine) (n : ℕ)
    (s s' : σ) :
    foldLines f n s (splitAfter isLineBoundary (recordLine host record)) ≠ .ok s' := by
  obtain ⟨a, c, b, hsplit, hc, hfirst, hpieces⟩ := exists_pieces host hone
  have hsep : c ≠ '"' ∧ c ≠ '\\' ∧ isToken c = false ∧ unescape? c = none ∧ c ≠ 'u' := by
    simp only [isSeparator, List.mem_cons, List.not_mem_nil, or_false, decide_eq_true_eq] at hc
    rcases hc with rfl | rfl | rfl <;> decide
  obtain ⟨hquote, hslash, htoken, hescape, hu⟩ := hsep
  -- The last piece begins within a string, white space or not.
  have hsuffix : ∃ w, b ++ ['}'] = w ++ (b ++ ['}']).dropWhile isSpace ∧
      ∀ d ∈ w, d ≠ '"' ∧ d ≠ '\\' := by
    refine ⟨(b ++ ['}']).takeWhile isSpace, List.takeWhile_append_dropWhile.symm, ?_⟩
    intro d hd
    have hspace : isSpace d = true := List.mem_takeWhile_imp hd
    constructor <;> (rintro rfl; exact absurd hspace (by decide))
  intro h
  rw [hpieces, foldLines_append, hreader.foldLines_cut hfirst] at h
  obtain ⟨s'', hline, -⟩ := exists_of_bind_eq_ok (show
    (f (n + (splitAfter isLineBoundary (a ++ [c])).length) s (b ++ ['}'] ++ ['\n']) >>= fun s =>
      .ok s) = .ok s' from h)
  refine hreader.of_not_json _ _ _ _ (by simp) ?_ ?_ hline
  · rw [stripLine_append, Ne, List.dropWhile_eq_nil_iff]
    intro hspaces
    exact absurd (hspaces '}' (by simp)) (by decide)
  · intro v
    rw [stripLine_append]
    exact loads_suffix_ne_ok host.floats hsplit hquote hslash htoken hescape hu hsuffix v

/-- Where the lines of records are read, no record has a separator. -/
theorem oneLine_of_foldLines {records : List JsonObject} {t : List Char} {n : ℕ} {s s' : σ}
    (h : foldLines f n s (splitAfter isLineBoundary (recordsText host records ++ t)) = .ok s') :
    ∀ record ∈ records, (Json.obj record).OneLine := by
  induction records generalizing n s with
  | nil => simp
  | cons record records ih =>
    rw [splitAfter_recordsText (by decide), foldLines_append] at h
    obtain ⟨s'', hfirst, hrest⟩ := exists_of_bind_eq_ok h
    refine List.forall_mem_cons.mpr ⟨?_, ih hrest⟩
    by_contra hone
    exact hreader.foldLines_ne_ok hone n s s'' hfirst

end LineReader

end Lines

end OpenRath
