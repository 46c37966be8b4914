import ConfigShell.Line.Escaped
import ConfigShell.Proofs.Line.Lines
import ConfigShell.Session.Walk
/-!
# Written words are read back

`escapeWord` writes any byte string as one word of a line. Each character it writes is a row of
segments that stand for the character, none of them hiding an equals sign, and a word begins
with neither a blank nor a plain `#` or slash. So words written with a blank between them form a
layout, and reading the line gives the words again (`lex_escaped`).
-/

namespace ConfigShell

/-! ## Characters -/

namespace Text

/-- The bytes that follow the first one of a sequence are no ASCII, and neither is the first. -/
theorem follow_eq_some {b : UInt8} {t : Text} {n : Nat} (h : follow b t = some n) :
    n = 0 ∨ ∀ x ∈ b :: t.take n, 0x80 ≤ x := by
  unfold follow at h
  repeat' split at h
  all_goals cases h
  all_goals simp_all [isContinuation, UInt8.le_iff_toNat_le]
  -- the second byte has bounds of its own after the first bytes `E0` and `F0`
  all_goals omega

/-- A character is a byte or has no byte of ASCII. -/
theorem high_of_mem_characters {t character : Text} (h : character ∈ characters t)
    (hmany : ∀ b, character ≠ [b]) : character ≠ [] ∧ ∀ x ∈ character, 0x80 ≤ x := by
  suffices hgen : ∀ limit t, character ∈ charactersUpTo limit t →
      character ≠ [] ∧ ∀ x ∈ character, 0x80 ≤ x from hgen _ _ h
  intro limit
  induction limit with
  | zero => intro t h; simp [charactersUpTo] at h
  | succ limit ih =>
    intro t h
    cases t with
    | nil => simp [charactersUpTo] at h
    | cons b t =>
      simp only [charactersUpTo, List.mem_cons] at h
      rcases h with rfl | h
      · refine ⟨by simp, ?_⟩
        cases hn : follow b t with
        | none => exact absurd (by simp [hn]) (hmany b)
        | some n =>
          rcases follow_eq_some hn with rfl | hhigh
          · exact absurd (by simp [hn]) (hmany b)
          · exact hhigh
      · exact ih _ h

end Text

namespace Line

/-! ## Segments that show their equals signs -/

namespace Segment

/-- An equals sign that the segment stands for is a plain one. -/
def ShowsEquals (g : Segment) : Prop := 0x3D ∈ g.decoded → g.isEquals = true

/-- The equals sign of a word that hides none is its first one. -/
theorem equalsIndex_eq_idxOf? (segments : List Segment) (h : ∀ g ∈ segments, g.ShowsEquals) :
    equalsIndex segments = (segments.flatMap decoded).idxOf? 0x3D := by
  induction segments with
  | nil => rfl
  | cons g rest ih =>
    have ih := ih fun g hg => h g (List.mem_cons_of_mem _ hg)
    rw [equalsIndex, List.flatMap_cons]
    by_cases heq : g.isEquals
    · cases g with
      | plain b isPlain =>
        simp only [isEquals, beq_iff_eq] at heq
        subst heq
        rfl
      | escape e => cases heq
      | single content noQuote => cases heq
      | double items => cases heq
    · -- a segment that is no equals sign does not stand for one either
      have hnone : g.decoded.idxOf? 0x3D = none :=
        List.idxOf?_eq_none_iff.mpr fun hmem => heq (h g (by simp) hmem)
      rw [List.idxOf?] at hnone
      simp only [heq, Bool.false_eq_true, if_false, ih, List.idxOf?, List.findIdx?_append, hnone,
        Option.none_or, Nat.add_comm g.decoded.length]

end Segment

/-- The segments are written as `source`, stand for `word` and hide no equals sign of it. -/
structure Spells (segments : List Segment) (source word : Text) : Prop where
  source_eq : segments.flatMap Segment.source = source
  decoded_eq : segments.flatMap Segment.decoded = word
  showsEquals : ∀ g ∈ segments, g.ShowsEquals

namespace Spells

theorem nil : Spells [] [] [] := ⟨rfl, rfl, by simp⟩

theorem append {gs hs : List Segment} {s t v w : Text} (h : Spells gs s v) (h' : Spells hs t w) :
    Spells (gs ++ hs) (s ++ t) (v ++ w) := by
  obtain ⟨rfl, rfl, hshows⟩ := h
  obtain ⟨rfl, rfl, hshows'⟩ := h'
  exact ⟨by simp, by simp, fun g hg => (List.mem_append.mp hg).elim (hshows g) (hshows' g)⟩

/-- A single segment that stands for something else than an equals sign. -/
theorem escape (e : EscapeSequence) (h : 0x3D ∉ e.decoded) :
    Spells [.escape e] e.source e.decoded :=
  ⟨by simp [Segment.source], by simp [Segment.decoded], by
    intro g hg hmem
    cases List.mem_singleton.mp hg
    exact absurd hmem h⟩

theorem plain {b : UInt8} (h : IsPlain b) : Spells [.plain b h] [b] [b] :=
  ⟨rfl, rfl, by
    intro g hg hmem
    cases List.mem_singleton.mp hg
    cases List.mem_singleton.mp hmem
    rfl⟩

theorem letter {l b : UInt8} (h : (l, b) ∈ letterEscapes) : ∃ gs, Spells gs [0x5C, l] [b] := by
  refine ⟨_, Spells.escape (.letter l b h) ?_⟩
  simp only [letterEscapes, List.mem_cons, List.not_mem_nil, or_false, Prod.mk.injEq] at h
  rintro hb
  cases List.mem_singleton.mp hb
  simp at h

end Spells

/-! ## Bytes by their digits -/

/-- The two digits of a byte, put together without a character string. -/
def byteDigits (n : Nat) : Text :=
  (List.replicate (2 - (Nat.toDigits 16 n).length) '0' ++ Nat.toDigits 16 n).flatMap
    String.utf8EncodeChar

theorem hexadecimal_eq_byteDigits (n : Nat) : Text.hexadecimal false 2 n = byteDigits n := by
  simp [Text.hexadecimal, Text.ofString, byteDigits]

theorem hexadecimal_byte (b : UInt8) :
    (Text.hexadecimal false 2 b.toNat).length = HexForm.byte.digits ∧
      (∀ d ∈ Text.hexadecimal false 2 b.toNat, isHexDigit d) ∧
      hexNumber (Text.hexadecimal false 2 b.toNat) = b.toNat := by
  have hall : (List.range 256).all (fun n =>
      (byteDigits n).length == 2 && (byteDigits n).all isHexDigit && hexNumber (byteDigits n) == n)
      = true := by decide +kernel
  have hbyte := List.all_eq_true.mp hall b.toNat (List.mem_range.mpr b.toNat_lt)
  simp only [Bool.and_eq_true, beq_iff_eq, List.all_eq_true] at hbyte
  rw [hexadecimal_eq_byteDigits]
  exact ⟨hbyte.1.1, hbyte.1.2, hbyte.2⟩

theorem spellByte_eq (b : UInt8) :
    spellByte b = 0x5C :: 0x78 :: Text.hexadecimal false 2 b.toNat := by
  have hstart : Text.ofString "\\x" = [0x5C, 0x78] := by decide
  rw [spellByte, hstart, List.cons_append, List.cons_append, List.nil_append]

/-- A byte by its digits is an escape sequence for it. -/
theorem Spells.spellByte {b : UInt8} (h : b ≠ 0x3D) : ∃ gs, Spells gs (spellByte b) [b] := by
  obtain ⟨hlen, hdigits, hnumber⟩ := hexadecimal_byte b
  have hdecoded : (EscapeSequence.hex .byte _ hlen hdigits trivial).decoded = [b] := by
    simp [EscapeSequence.decoded, hnumber]
  have hnone : 0x3D ∉ (EscapeSequence.hex .byte _ hlen hdigits trivial).decoded := by
    simpa [hdecoded] using h.symm
  have hspells := Spells.escape _ hnone
  rw [hdecoded] at hspells
  exact ⟨_, by rw [spellByte_eq]; exact hspells⟩

/-! ## Characters and words as they are written -/

/-- Neither a blank, nor what begins a comment, nor what starts at the top. -/
def startsPlainly (b : UInt8) : Bool := !isBlank b && b != 0x23 && b != Path.separator

theorem startsPlainly_iff {b : UInt8} :
    startsPlainly b ↔ isBlank b = false ∧ b ≠ 0x23 ∧ b ≠ Path.separator := by
  simp [startsPlainly, and_assoc]

/-- Bytes above ASCII are plain. -/
theorem isPlain_of_high {b : UInt8} (h : 0x80 ≤ b) : IsPlain b ∧ startsPlainly b := by
  have hne (c : UInt8) (hc : ¬ 0x80 ≤ c) : b ≠ c := by rintro rfl; exact hc h
  simp [IsPlain, isBreak, startsPlainly, isBlank, Path.separator, hne]

theorem Spells.high {t : Text} (h : ∀ b ∈ t, 0x80 ≤ b) : ∃ gs, Spells gs t t := by
  induction t with
  | nil => exact ⟨[], .nil⟩
  | cons b t ih =>
    obtain ⟨gs, hgs⟩ := ih fun b hb => h b (List.mem_cons_of_mem _ hb)
    exact ⟨_, (Spells.plain (isPlain_of_high (h b (by simp))).1).append hgs⟩

theorem takesBackslash_mem {b : UInt8} (h : takesBackslash b) : (b, b) ∈ letterEscapes := by
  simp only [takesBackslash, Bool.or_eq_true, beq_iff_eq] at h
  rcases h with ((rfl | rfl) | rfl) | rfl <;> decide

theorem escapeLetter?_mem {b l : UInt8} (h : escapeLetter? b = some l) :
    (l, b) ∈ letterEscapes := by
  unfold escapeLetter? at h
  split at h <;> cases h <;> decide

/-- What stands for itself in a word. -/
theorem isPlain_of_escapes {b : UInt8} (hbackslash : takesBackslash b = false)
    (hletter : escapeLetter? b = none) : IsPlain b ∧ isBlank b = false := by
  have hne (c : UInt8) (hc : (takesBackslash c || (escapeLetter? c).isSome) = true) : b ≠ c := by
    rintro rfl
    simp [hbackslash, hletter] at hc
  simp [IsPlain, isBreak, isBlank, hne, takesBackslash, escapeLetter?]

/-- A single byte is written as segments that stand for it. -/
theorem exists_spells_byte (b : UInt8) :
    ∃ gs, Spells gs (escapeCharacter [b]) [b] ∧
      (b ≠ 0x23 → b ≠ Path.separator → (escapeCharacter [b]).head?.any startsPlainly) := by
  by_cases hbackslash : takesBackslash b
  · have hwritten : escapeCharacter [b] = [0x5C, b] := by simp [escapeCharacter, hbackslash]
    obtain ⟨gs, hgs⟩ := Spells.letter (takesBackslash_mem hbackslash)
    exact ⟨gs, hwritten ▸ hgs, fun _ _ => by rw [hwritten]; rfl⟩
  cases hletter : escapeLetter? b with
  | some l =>
    have hwritten : escapeCharacter [b] = [0x5C, l] := by
      simp [escapeCharacter, hbackslash, hletter]
    obtain ⟨gs, hgs⟩ := Spells.letter (escapeLetter?_mem hletter)
    exact ⟨gs, hwritten ▸ hgs, fun _ _ => by rw [hwritten]; rfl⟩
  | none =>
    by_cases hspelt : b < 0x20 || b == 0x7F || 0x80 ≤ b
    · have hwritten : escapeCharacter [b] = spellByte b := by
        simp [escapeCharacter, hbackslash, hletter, hspelt]
      have hne : b ≠ 0x3D := by rintro rfl; exact absurd hspelt (by decide)
      obtain ⟨gs, hgs⟩ := Spells.spellByte hne
      exact ⟨gs, hwritten ▸ hgs, fun _ _ => by rw [hwritten, spellByte_eq]; rfl⟩
    · -- nothing is left that would have a meaning of its own
      have hwritten : escapeCharacter [b] = [b] := by
        simp [escapeCharacter, hbackslash, hletter, hspelt]
      obtain ⟨hplain, hblank⟩ := isPlain_of_escapes (by simpa using hbackslash) hletter
      refine ⟨[.plain b hplain], by rw [hwritten]; exact .plain hplain, ?_⟩
      intro hhash hslash
      simpa [hwritten, startsPlainly_iff, hblank] using And.intro hhash hslash

/-- **A character is written as segments that stand for it.** Only `#` and a slash do not start
plainly. -/
theorem exists_spells_escapeCharacter {t character : Text} (h : character ∈ Text.characters t) :
    ∃ gs, Spells gs (escapeCharacter character) character ∧
      (character ≠ [0x23] → character ≠ [Path.separator] →
        (escapeCharacter character).head?.any startsPlainly) := by
  by_cases hone : ∃ b, character = [b]
  · obtain ⟨b, rfl⟩ := hone
    obtain ⟨gs, hgs, hstarts⟩ := exists_spells_byte b
    exact ⟨gs, hgs, fun hhash hslash => hstarts (by simpa using hhash) (by simpa using hslash)⟩
  · -- a character of several bytes stands as it is
    obtain ⟨hne, hhigh⟩ := Text.high_of_mem_characters h fun b hb => hone ⟨b, hb⟩
    have hself : escapeCharacter character = character := by
      unfold escapeCharacter
      split
      · exact absurd ⟨_, rfl⟩ hone
      · rfl
    rw [hself]
    obtain ⟨gs, hgs⟩ := Spells.high hhigh
    refine ⟨gs, hgs, fun _ _ => ?_⟩
    obtain ⟨b, rest, rfl⟩ := List.exists_cons_of_ne_nil hne
    simpa using (isPlain_of_high (hhigh b (by simp))).2

theorem exists_spells_escapeFirst {t character : Text} (h : character ∈ Text.characters t) :
    ∃ gs, Spells gs (escapeFirst character) character ∧
      (escapeFirst character).head?.any startsPlainly := by
  by_cases hspelt : character = [0x23] ∨ character = [Path.separator]
  · have hbyte : ∃ b, character = [b] ∧ b ≠ 0x3D ∧ escapeFirst character = spellByte b := by
      rcases hspelt with rfl | rfl
      · exact ⟨0x23, rfl, by decide, by simp [escapeFirst]⟩
      · exact ⟨0x2F, rfl, by decide, by simp [escapeFirst, Path.separator]⟩
    obtain ⟨b, rfl, hne, hfirst⟩ := hbyte
    obtain ⟨gs, hgs⟩ := Spells.spellByte hne
    rw [hfirst]
    exact ⟨gs, hgs, by rw [spellByte_eq]; rfl⟩
  · obtain ⟨hhash, hslash⟩ := not_or.mp hspelt
    obtain ⟨gs, hgs, hstarts⟩ := exists_spells_escapeCharacter h
    have hfirst : escapeFirst character = escapeCharacter character := by
      rw [escapeFirst, if_neg]
      simpa [Path.separator] using hspelt
    rw [hfirst]
    exact ⟨gs, hgs, hstarts hhash hslash⟩

theorem exists_spells_characters {t : Text} (cs : List Text)
    (h : ∀ c ∈ cs, c ∈ Text.characters t) :
    ∃ gs, Spells gs (cs.flatMap escapeCharacter) cs.flatten := by
  induction cs with
  | nil => exact ⟨[], .nil⟩
  | cons c rest ih =>
    obtain ⟨gs, hgs, -⟩ := exists_spells_escapeCharacter (h c (by simp))
    obtain ⟨gs', hgs'⟩ := ih fun c hc => h c (List.mem_cons_of_mem _ hc)
    exact ⟨gs ++ gs', by simpa using hgs.append hgs'⟩

/-- The written form of `word` as a word of a layout. -/
structure WrittenWord.IsEscaped (u : WrittenWord) (word : Text) : Prop where
  source_eq : u.source = escapeWord word
  decoded_eq : u.decoded = word
  equals_eq : Segment.equalsIndex u.segments = word.idxOf? 0x3D
  starts : u.source.head?.any startsPlainly

/-- **Every byte string has a written form.** -/
theorem exists_isEscaped (word : Text) : ∃ u : WrittenWord, u.IsEscaped word := by
  cases hcs : Text.characters word with
  | nil =>
    have hword : word = [] := by rw [← Text.characters_flatten word, hcs]; rfl
    subst hword
    exact ⟨⟨[.single [] (by simp)], by decide⟩, rfl, rfl, rfl, by decide⟩
  | cons c rest =>
    have hfirst : c ∈ Text.characters word := by simp [hcs]
    have hlater : ∀ c' ∈ rest, c' ∈ Text.characters word := by simp +contextual [hcs]
    obtain ⟨gs, hgs, hstarts⟩ := exists_spells_escapeFirst hfirst
    obtain ⟨gs', hgs'⟩ := exists_spells_characters rest hlater
    have hword : c ++ rest.flatten = word := by rw [← Text.characters_flatten word, hcs]; rfl
    have hsource : escapeFirst c ++ rest.flatMap escapeCharacter = escapeWord word := by
      rw [escapeWord, hcs]
    have hall := hgs.append hgs'
    rw [hword, hsource] at hall
    have hhead : (escapeWord word).head?.any startsPlainly := by
      obtain ⟨b, rest, hb⟩ := List.exists_cons_of_ne_nil (l := escapeFirst c) fun hnil => by
        simp [hnil] at hstarts
      rw [← hsource, hb]
      simpa [hb] using hstarts
    have hblank : ((gs ++ gs').flatMap Segment.source).head?.any (!isBlank ·) := by
      rw [hall.source_eq]
      cases hhead? : (escapeWord word).head? with
      | none => simp [hhead?] at hhead
      | some b =>
        rw [hhead?] at hhead
        simp [(startsPlainly_iff.mp hhead).1]
    refine ⟨⟨gs ++ gs', hblank⟩, hall.source_eq, hall.decoded_eq, ?_, ?_⟩
    · rw [Segment.equalsIndex_eq_idxOf? _ hall.showsEquals, hall.decoded_eq]
    · rw [WrittenWord.source, hall.source_eq]
      exact hhead

/-- The written forms of `words`. -/
structure AreEscaped (us : List WrittenWord) (words : List Text) : Prop where
  source_eq : us.map WrittenWord.source = words.map escapeWord
  contents_eq : us.map (fun u => (u.decoded, (Segment.equalsIndex u.segments).map Int.ofNat))
    = words.map fun w => (w, (w.idxOf? 0x3D).map Int.ofNat)
  starts : ∀ u ∈ us, u.source.head?.any startsPlainly

theorem exists_areEscaped (words : List Text) : ∃ us, AreEscaped us words := by
  induction words with
  | nil => exact ⟨[], rfl, rfl, by simp⟩
  | cons w rest ih =>
    obtain ⟨u, hsource, hdecoded, hequals, hstarts⟩ := exists_isEscaped w
    obtain ⟨us, hsources, hcontents, hall⟩ := ih
    exact ⟨u :: us, by simp [hsource, hsources], by simp [hdecoded, hequals, hcontents],
      List.forall_mem_cons.mpr ⟨hstarts, hall⟩⟩

/-! ## Lines of written words -/

/-- A single blank. -/
def Gap.blank : Gap := ⟨0x20, [], rfl, by simp⟩

/-- The words with a blank between neighbours. -/
def Layout.spaced (words : List WrittenWord) : Layout :=
  { lead := [], isBlank_lead := by simp
    ended := words.dropLast.map (·, Gap.blank), last := words.getLast? }

namespace Layout

theorem spaced_cons_cons (u v : WrittenWord) (rest : List WrittenWord) :
    (spaced (u :: v :: rest)).ended = (u, Gap.blank) :: (spaced (v :: rest)).ended ∧
      (spaced (u :: v :: rest)).last = (spaced (v :: rest)).last := by
  simp [spaced, List.getLast?_cons_cons]

@[simp]
theorem words_spaced (words : List WrittenWord) : (spaced words).words = words := by
  induction words with
  | nil => rfl
  | cons u rest ih =>
    cases rest with
    | nil => rfl
    | cons v rest =>
      obtain ⟨hended, hlast⟩ := spaced_cons_cons u v rest
      rw [Layout.words, hended, hlast]
      exact congrArg (u :: ·) ih

/-- Such a line is the words joined by blanks. -/
theorem source_spaced (words : List WrittenWord) :
    (spaced words).source = Text.join [0x20] (words.map WrittenWord.source) := by
  induction words with
  | nil => rfl
  | cons u rest ih =>
    cases rest with
    | nil => simp [source, spaced, body, Text.join]
    | cons v rest =>
      obtain ⟨hended, hlast⟩ := spaced_cons_cons u v rest
      have htail : (spaced (u :: v :: rest)).source
          = u.source ++ [0x20] ++ (spaced (v :: rest)).source := by
        simp only [source, hended, hlast, body, List.flatMap_cons, List.append_assoc]
        rfl
      simp only [htail, ih, List.map_cons, Text.join, List.intercalate_cons_cons]

end Layout

/-! ## What starts at the top -/

theorem le_of_mem_placed {outs : List Text} {position n : Nat} (h : n ∈ placed position outs) :
    position ≤ n := by
  induction outs generalizing position with
  | nil => cases h
  | cons out rest ih =>
    rcases List.mem_append.mp h with h | h
    · exact Nat.le_of_eq (List.eq_of_mem_replicate h).symm
    · exact Nat.le_of_succ_le (ih h)

/-- A quote or a backslash stands for nothing, so what follows it stands for the first byte. -/
theorem Segment.behind (g : Segment) (h : ∀ b isPlain, g ≠ .plain b isPlain) :
    (∃ more, g.outputs = [] :: more) ∧ g.source.head?.any (· != Path.separator) := by
  cases g with
  | plain b isPlain => exact absurd rfl (h b isPlain)
  | escape e =>
    obtain ⟨b, t, hb⟩ := List.exists_cons_of_ne_nil e.tail_ne_nil
    exact ⟨⟨_, by simp [outputs, EscapeSequence.outputs, hb, List.replicate_succ]; rfl⟩, rfl⟩
  | single content noQuote => exact ⟨⟨_, rfl⟩, rfl⟩
  | double items => exact ⟨⟨_, rfl⟩, rfl⟩

/-- **A word starts at the top exactly if it begins with a plain slash.** -/
theorem WrittenWord.hasRootSlash_token (u : WrittenWord) (position : Nat) :
    Walk.hasRootSlash (u.token position) = (u.source.head? == some Path.separator) := by
  obtain ⟨segments, starts⟩ := u
  cases segments with
  | nil => cases starts
  | cons g rest =>
    by_cases hplain : ∃ b isPlain, g = .plain b isPlain
    · obtain ⟨b, isPlain, rfl⟩ := hplain
      simp [Walk.hasRootSlash, token, decoded, outputs, source, Segment.decoded, Segment.outputs,
        Segment.source, placed]
    · obtain ⟨⟨more, houts⟩, hsource⟩ := g.behind fun b isPlain h => hplain ⟨b, isPlain, h⟩
      -- the first offset is that of a later byte
      have hoffset :
          (token ⟨g :: rest, starts⟩ position).offsets.head? ≠ some (position : Int) := by
        intro h
        simp only [token, outputs, List.flatMap_cons, houts, List.cons_append, placed,
          List.length_nil, List.replicate_zero, List.nil_append] at h
        obtain ⟨n, hn, hcast⟩ := List.mem_map.mp (List.mem_of_mem_head? h)
        have hle := le_of_mem_placed hn
        have : n = position := Int.ofNat.inj hcast
        omega
      obtain ⟨b, t, hb⟩ := List.exists_cons_of_ne_nil g.source_ne_nil
      have hne : b ≠ Path.separator := by simpa [hb] using hsource
      have hfalse : Walk.hasRootSlash (token ⟨g :: rest, starts⟩ position) = false := by
        simp only [Walk.hasRootSlash, Bool.and_eq_false_iff, Bool.or_eq_false_iff]
        exact .inr ⟨rfl, beq_eq_false_iff_ne.mpr hoffset⟩
      simp [hfalse, source, hb, hne]

namespace Layout

theorem head?_tokens (l : Layout) :
    l.tokens.head? = l.words.head?.map (·.token l.lead.length) := by
  rw [tokens, words]
  cases l.ended with
  | nil => cases l.last <;> rfl
  | cons p rest => rfl

theorem splitRoot_tokens {l : Layout}
    (h : ∀ u ∈ l.words.head?, u.source.head? ≠ some Path.separator) :
    Walk.splitRoot l.tokens = (false, l.tokens) := by
  have hhead := l.head?_tokens
  cases ht : l.tokens with
  | nil => rfl
  | cons first rest =>
    rw [ht] at hhead
    obtain ⟨u, hu, hfirst⟩ := Option.map_eq_some_iff.mp hhead.symm
    have hroot : Walk.hasRootSlash first = false := by
      rw [← hfirst, u.hasRootSlash_token]
      simpa using h u hu
    simp [Walk.splitRoot, hroot]

end Layout

/-- **Written words are read back**: the line of any words as they are written, with a blank
between neighbours, is read without an error, is no comment, leaves nothing open and starts from
the current container, and its tokens are the words, the first equals sign of each marked. -/
theorem lex_escaped (words : List Text) :
    ∃ lexed, lex (Text.join [0x20] (words.map escapeWord)) = .ok lexed ∧
      lexed.isComment = false ∧ lexed.state.isOpen = false ∧
      lexed.tokens.map (fun t => (t.data, t.equals))
        = words.map (fun w => (w, (w.idxOf? 0x3D).map Int.ofNat)) ∧
      Walk.splitRoot lexed.tokens = (false, lexed.tokens) := by
  obtain ⟨us, hus⟩ := exists_areEscaped words
  have hsource : (Layout.spaced us).source = Text.join [0x20] (words.map escapeWord) := by
    rw [Layout.source_spaced, hus.source_eq]
  have hfirst (c : UInt8) (hc : startsPlainly c = false) :
      ∀ u ∈ (Layout.spaced us).words.head?, u.source.head? ≠ some c := by
    intro u hu hcu
    have hstarts := hus.starts u (List.mem_of_mem_head? (by simpa using hu))
    simp [hcu, hc] at hstarts
  have hcomment : (Layout.spaced us).isComment = false := by
    rw [Layout.isComment, Option.any_eq_false]
    intro u hu
    simpa using hfirst 0x23 rfl u hu
  obtain ⟨lexed, hlex, hplain, hclosed, htokens⟩ := lex_layout _ hcomment
  refine ⟨lexed, hsource ▸ hlex, hplain, hclosed, ?_, ?_⟩
  · rw [htokens, Layout.contents_tokens, Layout.words_spaced]
    exact hus.contents_eq
  · rw [htokens, Layout.splitRoot_tokens (hfirst Path.separator rfl)]

end Line

end ConfigShell
