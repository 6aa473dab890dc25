import Mathlib.Data.List.Basic

/-!
# Text files

A text file is a list of bytes. Reading it as text decodes UTF-8 strictly and then replaces every
line ending by a line feed. The text is taken apart into lines in two ways that need not agree:
iterating over the file ends a line at a line feed, whereas `str.splitlines` also ends one at the
other line boundaries of Unicode.

## Main definitions

* `encode`, `decode`, `readText`.
* `splitAfter`, `fileLines`, `splitlines`, `isLineBoundary`.

## Main results

* `decode_eq_some_iff`: decoding is the inverse of encoding.
* `splitAfter_append_cons`: the lines of a text and of what follows one of its line ends.
-/

namespace OpenRath.TextFile

/-! ### Bytes -/

/-- The bytes of a text in UTF-8. -/
def encode (t : List Char) : List UInt8 := t.flatMap String.utf8EncodeChar

/-- The text of bytes that are UTF-8. -/
def decode (bytes : List UInt8) : Option (List Char) :=
  (ByteArray.utf8Decode? bytes.toByteArray).map Array.toList

@[simp] theorem encode_nil : encode [] = [] := rfl

@[simp] theorem encode_append (s t : List Char) : encode (s ++ t) = encode s ++ encode t :=
  List.flatMap_append

theorem toByteArray_encode (t : List Char) : (encode t).toByteArray = t.utf8Encode := rfl

theorem decode_encode (t : List Char) : decode (encode t) = some t := by
  rw [decode, toByteArray_encode, List.utf8Decode?_utf8Encode]
  rfl

/-- Decoding is the inverse of encoding. -/
theorem decode_eq_some_iff {bytes : List UInt8} {t : List Char} :
    decode bytes = some t ↔ bytes = encode t := by
  constructor
  · intro h
    have hvalid : (ByteArray.utf8Decode? bytes.toByteArray).isSome := by
      rw [decode] at h
      cases hdecode : ByteArray.utf8Decode? bytes.toByteArray with
      | none => simp [hdecode] at h
      | some _ => rfl
    obtain ⟨t', ht'⟩ := ByteArray.isSome_utf8Decode?_iff.mp hvalid
    have hbytes : bytes = encode t' := by
      have hlist := congrArg (fun b : ByteArray => b.data.toList) ht'
      simpa [encode, List.utf8Encode] using hlist
    rw [hbytes, decode_encode, Option.some_inj] at h
    rw [hbytes, h]
  · rintro rfl
    exact decode_encode t

/-- A text whose bytes are the first bytes of another text is an initial part of it. -/
theorem isPrefix_of_encode_append {s t : List Char} {bytes : List UInt8}
    (h : encode s ++ bytes = encode t) : s <+: t := by
  refine List.isPrefix_of_utf8Encode_append_eq_utf8Encode bytes.toByteArray ?_
  rw [← toByteArray_encode, ← toByteArray_encode, ← h]
  exact (List.toByteArray_append).symm

/-- A file that is cut off within a character cannot be decoded. -/
theorem decode_eq_none {a b : List Char} {c : Char} {bytes : List UInt8}
    (hbytes : bytes <+: encode (a ++ c :: b)) (hstart : (encode a).length < bytes.length)
    (hend : bytes.length < (encode (a ++ [c])).length) : decode bytes = none := by
  cases hdecode : decode bytes with
  | none => rfl
  | some s =>
    have hencode := decode_eq_some_iff.mp hdecode
    rw [hencode] at hbytes hstart hend
    obtain ⟨rest, hrest⟩ := hbytes
    have hs : s <+: a ++ c :: b := isPrefix_of_encode_append hrest
    rcases List.prefix_or_prefix_of_prefix hs (List.prefix_append a _) with hsa | ⟨s', rfl⟩
    · obtain ⟨t, rfl⟩ := hsa
      rw [encode_append, List.length_append] at hstart
      omega
    · cases s' with
      | nil =>
        rw [List.append_nil] at hstart
        exact absurd hstart (Nat.lt_irrefl _)
      | cons d s' =>
        obtain ⟨u, hu⟩ := (List.prefix_append_right_inj a).mp hs
        obtain ⟨rfl, -⟩ := List.cons.inj hu
        rw [List.append_cons, encode_append (a ++ [d]), List.length_append] at hend
        omega

/-- The byte of a line feed comes from a line feed only. -/
theorem newline_of_mem_utf8EncodeChar {c : Char} (h : (10 : UInt8) ∈ String.utf8EncodeChar c) :
    c = '\n' := by
  have hbyte : ∀ n, (10 : UInt8) = UInt8.ofNat n → n % 256 = 10 := by
    intro n hn
    have hnat := congrArg UInt8.toNat hn
    rw [UInt8.toNat_ofNat'] at hnat
    exact hnat.symm
  have hval : c.val.toNat = 10 := by
    rw [String.utf8EncodeChar] at h
    split_ifs at h
    all_goals simp only [List.mem_cons, List.not_mem_nil, or_false] at h
    · have := hbyte _ h
      omega
    · rcases h with h | h <;> have := hbyte _ h <;> omega
    · rcases h with h | h | h <;> have := hbyte _ h <;> omega
    · rcases h with h | h | h | h <;> have := hbyte _ h <;> omega
  exact Char.ext (UInt32.toNat_inj.mp hval)

theorem newline_not_mem_encode {t : List Char} (h : '\n' ∉ t) : (10 : UInt8) ∉ encode t := by
  intro hmem
  obtain ⟨c, hc, hbyte⟩ := List.mem_flatMap.mp hmem
  rw [newline_of_mem_utf8EncodeChar hbyte] at hc
  exact h hc

/-- The lines of a file of bytes that end with a line feed, without it. -/
def byteLines : List UInt8 → List (List UInt8)
  | [] => []
  | b :: bytes =>
    if b = 10 then [] :: byteLines bytes
    else
      match byteLines bytes with
      | [] => []
      | line :: lines => (b :: line) :: lines

theorem byteLines_of_not_mem {bytes : List UInt8} (h : (10 : UInt8) ∉ bytes) :
    byteLines bytes = [] := by
  induction bytes with
  | nil => rfl
  | cons b bytes ih =>
    rw [List.mem_cons, not_or] at h
    rw [byteLines, if_neg (Ne.symm h.1), ih h.2]

theorem byteLines_append_cons {line : List UInt8} (h : (10 : UInt8) ∉ line)
    (bytes : List UInt8) : byteLines (line ++ 10 :: bytes) = line :: byteLines bytes := by
  induction line with
  | nil => rw [List.nil_append, byteLines, if_pos rfl]
  | cons b line ih =>
    rw [List.mem_cons, not_or] at h
    rw [List.cons_append, byteLines, if_neg (Ne.symm h.1), ih h.2]

/-! ### Newlines -/

/-- The translation of line endings. -/
def universalNewlines : List Char → List Char
  | [] => []
  | '\r' :: '\n' :: t => '\n' :: universalNewlines t
  | '\r' :: t => '\n' :: universalNewlines t
  | c :: t => c :: universalNewlines t

theorem universalNewlines_of_not_mem {t : List Char} (h : '\r' ∉ t) :
    universalNewlines t = t := by
  fun_induction universalNewlines t with
  | case1 => rfl
  | case2 t ih => simp at h
  | case3 t hnext ih => simp at h
  | case4 c t hpair hsingle ih => rw [ih fun ht => h (List.mem_cons_of_mem _ ht)]

/-- The text of a file, as it is read in text mode. -/
def readText (bytes : List UInt8) : Option (List Char) :=
  (decode bytes).map universalNewlines

/-! ### Lines -/

/-- The pieces of a text, each of which ends with the only character in it that satisfies `p`,
except for the last one, which may have none. -/
def splitAfter (p : Char → Bool) : List Char → List (List Char)
  | [] => []
  | c :: t =>
    if p c then [c] :: splitAfter p t
    else match splitAfter p t with
      | [] => [[c]]
      | line :: lines => (c :: line) :: lines

/-- The lines that an iteration over a file goes through. -/
def fileLines : List Char → List (List Char) := splitAfter (· = '\n')

/-- The characters at which `splitlines` ends a line. -/
def isLineBoundary (c : Char) : Bool :=
  c ∈ ['\n', '\x0b', '\x0c', '\r', '\x1c', '\x1d', '\x1e', '\u0085', '\u2028', '\u2029']

/-- `splitlines(keepends=True)`. -/
def splitlines : List Char → List (List Char)
  | [] => []
  | '\r' :: '\n' :: t => ['\r', '\n'] :: splitlines t
  | c :: t =>
    if isLineBoundary c then [c] :: splitlines t
    else match splitlines t with
      | [] => [[c]]
      | line :: lines => (c :: line) :: lines

/-- Where no carriage return is left, the lines end at single characters. -/
theorem splitlines_eq_splitAfter {t : List Char} (h : '\r' ∉ t) :
    splitlines t = splitAfter isLineBoundary t := by
  fun_induction splitlines t with
  | case1 => rfl
  | case2 t ih => simp at h
  | case3 c t hpair hc ih =>
    rw [splitAfter, if_pos hc, ih fun ht => h (List.mem_cons_of_mem _ ht)]
  | case4 c t hpair hc hnil ih =>
    rw [splitAfter, if_neg hc, ← ih fun ht => h (List.mem_cons_of_mem _ ht), hnil]
  | case5 c t hpair hc line lines hcons ih =>
    rw [splitAfter, if_neg hc, ← ih fun ht => h (List.mem_cons_of_mem _ ht), hcons]

section SplitAfter

variable {p : Char → Bool}

/-- The lines of a text and of what follows one of its line ends. -/
theorem splitAfter_append_cons (s t : List Char) {c : Char} (hc : p c = true) :
    splitAfter p (s ++ c :: t) = splitAfter p (s ++ [c]) ++ splitAfter p t := by
  induction s with
  | nil => simp [splitAfter, hc]
  | cons d s ih =>
    simp only [List.cons_append, splitAfter, ih]
    by_cases hd : p d = true
    · simp [hd]
    · simp only [hd, Bool.false_eq_true, if_false]
      cases hsplit : splitAfter p (s ++ [c]) with
      | nil =>
        cases s with
        | nil => simp [splitAfter, hc] at hsplit
        | cons e s =>
          rw [List.cons_append, splitAfter] at hsplit
          split at hsplit
          · simp at hsplit
          · split at hsplit <;> simp at hsplit
      | cons line lines => rfl

/-- A text whose only line end is its last character is a single line. -/
theorem splitAfter_append_singleton {s : List Char} (h : ∀ c ∈ s, p c = false) {c : Char}
    (hc : p c = true) : splitAfter p (s ++ [c]) = [s ++ [c]] := by
  induction s with
  | nil => simp [splitAfter, hc]
  | cons d s ih =>
    have hd : ¬ p d = true := by simp [h d List.mem_cons_self]
    rw [List.cons_append, splitAfter, if_neg hd, ih fun e he => h e (List.mem_cons_of_mem _ he)]

/-- The lines make up the text. -/
theorem flatten_splitAfter (t : List Char) : (splitAfter p t).flatten = t := by
  induction t with
  | nil => rfl
  | cons c t ih =>
    rw [splitAfter]
    split
    · rw [List.flatten_cons, ih]
      rfl
    · split
      · rename_i hnil
        rw [hnil, List.flatten_nil] at ih
        rw [← ih]
        rfl
      · rename_i line lines hcons
        rw [hcons, List.flatten_cons] at ih
        rw [List.flatten_cons, List.cons_append, ih]

theorem mem_of_mem_splitAfter {t line : List Char} (hline : line ∈ splitAfter p t) {c : Char}
    (hc : c ∈ line) : c ∈ t := by
  rw [← flatten_splitAfter (p := p) t]
  exact List.mem_flatten_of_mem hline hc

end SplitAfter

end OpenRath.TextFile
