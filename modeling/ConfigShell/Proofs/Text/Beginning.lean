import ConfigShell.Names
/-!
# Beginnings of texts

A text begins with another if its characters do, which is more than that its bytes do: a character
is never split. Characters at the front of a text are those of the bytes they are made of
(`Text.characters_of_prefix`), so what names share can be put behind a beginning of them. Beginnings
are ordered, and with what names share behind it a beginning of all of them becomes the longest one
(`Names.exists_commonRun`).
-/

namespace ConfigShell

namespace Text

/-! ## Characters one after another -/

theorem follow_le_length {b : UInt8} {t : Text} {n : Nat} (h : follow b t = some n) :
    n ≤ t.length := by
  unfold follow at h
  repeat' split at h
  all_goals cases h
  all_goals simp

/-- What stands behind a sequence does not matter to it. -/
theorem follow_append_iff {b : UInt8} {t : Text} {n : Nat} (hn : n ≤ t.length) (rest : Text) :
    follow b (t ++ rest) = some n ↔ follow b t = some n := by
  match t, rest with
  | t, [] => simp
  | c :: d :: e :: t, rest => rfl
  -- a shorter text may end within a sequence, but not within one of so few bytes
  | [], c :: rest => simp only [follow, List.nil_append, List.length_nil] at hn ⊢; grind
  | [c], d :: rest =>
    simp only [follow, List.cons_append, List.nil_append, List.length_cons, List.length_nil] at hn ⊢
    grind
  | [c, d], e :: rest =>
    simp only [follow, List.cons_append, List.nil_append, List.length_cons, List.length_nil] at hn ⊢
    grind

/-- How many bytes the first character has behind its first one. -/
def tail (b : UInt8) (t : Text) : Nat := (follow b t).getD 0

theorem tail_le_length (b : UInt8) (t : Text) : tail b t ≤ t.length := by
  unfold tail
  cases h : follow b t with
  | none => exact Nat.zero_le _
  | some n => exact follow_le_length h

theorem tail_append {b : UInt8} {t rest : Text} (h : tail b (t ++ rest) ≤ t.length) :
    tail b (t ++ rest) = tail b t := by
  unfold tail at h ⊢
  cases ht : follow b t with
  | some n => rw [(follow_append_iff (follow_le_length ht) rest).mpr ht]
  | none =>
    cases hrest : follow b (t ++ rest) with
    | none => rfl
    | some n =>
      rw [hrest] at h
      rw [(follow_append_iff h rest).mp hrest] at ht
      cases ht

theorem charactersUpTo_of_le {limit limit' : Nat} {t : Text} (h : t.length ≤ limit)
    (h' : t.length ≤ limit') : charactersUpTo limit t = charactersUpTo limit' t := by
  induction limit generalizing limit' t with
  | zero =>
    obtain rfl := List.length_eq_zero_iff.mp (Nat.le_zero.mp h)
    cases limit' <;> rfl
  | succ limit ih =>
    cases t with
    | nil => cases limit' <;> rfl
    | cons b t =>
      cases limit' with
      | zero => cases h'
      | succ limit' =>
        have hle {limit : Nat} (h : (b :: t).length ≤ limit + 1) :
            (t.drop (tail b t)).length ≤ limit := by
          rw [List.length_cons] at h
          rw [List.length_drop]
          omega
        exact congrArg (_ :: ·) (ih (hle h) (hle h'))

@[simp]
theorem characters_nil : characters [] = [] := rfl

theorem characters_cons (b : UInt8) (t : Text) :
    characters (b :: t) = (b :: t.take (tail b t)) :: characters (t.drop (tail b t)) := by
  rw [characters, List.length_cons, charactersUpTo, characters]
  exact congrArg (_ :: ·) (charactersUpTo_of_le (by rw [List.length_drop]; omega) Nat.le.refl)

/-- **Characters at the front of a text are those of the bytes they are made of.** -/
theorem characters_of_prefix {cs : List Text} {t : Text} (h : cs <+: characters t) :
    characters cs.flatten = cs := by
  induction cs generalizing t with
  | nil => rfl
  | cons c cs ih =>
    cases t with
    | nil => exact absurd (List.prefix_nil.mp h) (List.cons_ne_nil c cs)
    | cons b t =>
      rw [characters_cons, List.cons_prefix_cons] at h
      obtain ⟨rfl, others, hothers⟩ := h
      -- the text goes on with these characters and then others
      have ht : t = (t.take (tail b t) ++ cs.flatten) ++ others.flatten := by
        have hrest := congrArg List.flatten hothers
        rw [List.flatten_append, characters_flatten] at hrest
        rw [List.append_assoc, hrest, List.take_append_drop]
      have hlength : (t.take (tail b t)).length = tail b t :=
        List.length_take_of_le (tail_le_length b t)
      have hfirst : tail b (t.take (tail b t) ++ cs.flatten) = tail b t := by
        have happend : tail b (t.take (tail b t) ++ cs.flatten ++ others.flatten) ≤ _ → _ :=
          tail_append
        rw [← ht, List.length_append, hlength] at happend
        exact (happend (Nat.le_add_right _ _)).symm
      rw [List.flatten_cons, List.cons_append, characters_cons, hfirst, List.take_left' hlength,
        List.drop_left' hlength, ih ⟨others, hothers⟩]

/-! ## The order of beginnings -/

variable {s t u : Text}

theorem beginsWith_iff : beginsWith t s = true ↔ characters s <+: characters t :=
  List.isPrefixOf_iff_prefix

theorem prefix_of_beginsWith (h : beginsWith t s = true) : s <+: t := by
  obtain ⟨rest, hrest⟩ := beginsWith_iff.mp h
  have hbytes := congrArg List.flatten hrest
  rw [List.flatten_append, characters_flatten, characters_flatten] at hbytes
  exact ⟨rest.flatten, hbytes⟩

@[simp]
theorem beginsWith_refl (t : Text) : beginsWith t t = true := beginsWith_iff.mpr List.prefix_rfl

theorem beginsWith_trans (ht : beginsWith t s = true) (hu : beginsWith u t = true) :
    beginsWith u s = true :=
  beginsWith_iff.mpr ((beginsWith_iff.mp ht).trans (beginsWith_iff.mp hu))

theorem beginsWith_antisymm (hs : beginsWith s t = true) (ht : beginsWith t s = true) : s = t := by
  have hs := beginsWith_iff.mp hs
  have ht := beginsWith_iff.mp ht
  have hcharacters := ht.eq_of_length_le hs.length_le
  rw [← characters_flatten s, hcharacters, characters_flatten]

/-- Of two beginnings of a text the shorter one is a beginning of the other. -/
theorem beginsWith_of_width_le (hs : beginsWith u s = true) (ht : beginsWith u t = true)
    (h : width s ≤ width t) : beginsWith t s = true :=
  beginsWith_iff.mpr
    (List.prefix_of_prefix_length_le (beginsWith_iff.mp hs) (beginsWith_iff.mp ht) h)

theorem width_le_of_beginsWith (h : beginsWith t s = true) : width s ≤ width t :=
  (beginsWith_iff.mp h).length_le

/-! ## What texts share -/

theorem sharedStart_prefix (cs ds : List Text) :
    sharedStart cs ds <+: cs ∧ sharedStart cs ds <+: ds := by
  induction cs generalizing ds with
  | nil => exact ⟨List.prefix_rfl, List.nil_prefix⟩
  | cons c cs ih =>
    cases ds with
    | nil => exact ⟨List.nil_prefix, List.prefix_rfl⟩
    | cons d ds =>
      rw [sharedStart]
      split
      · rename_i hsame
        obtain rfl := beq_iff_eq.mp hsame
        obtain ⟨hcs, hds⟩ := ih ds
        exact ⟨List.cons_prefix_cons.mpr ⟨rfl, hcs⟩, List.cons_prefix_cons.mpr ⟨rfl, hds⟩⟩
      · exact ⟨List.nil_prefix, List.nil_prefix⟩

theorem prefix_sharedStart {es cs ds : List Text} (hcs : es <+: cs) (hds : es <+: ds) :
    es <+: sharedStart cs ds := by
  induction es generalizing cs ds with
  | nil => exact List.nil_prefix
  | cons e es ih =>
    obtain ⟨cs, rfl⟩ := hcs
    obtain ⟨ds, rfl⟩ := hds
    rw [List.cons_append, List.cons_append, sharedStart, if_pos BEq.rfl]
    exact List.cons_prefix_cons.mpr ⟨rfl, ih (List.prefix_append _ _) (List.prefix_append _ _)⟩

/-- **What the first of several shares with all others** is a beginning of each, and every such
beginning is a beginning of it. -/
theorem prefix_foldl_sharedStart (first : List Text) (others : List (List Text))
    (es : List Text) :
    es <+: others.foldl sharedStart first ↔ ∀ cs ∈ first :: others, es <+: cs := by
  induction others generalizing first with
  | nil => simp
  | cons second others ih =>
    rw [List.foldl_cons, ih]
    simp only [List.forall_mem_cons]
    constructor
    · rintro ⟨hshared, hothers⟩
      obtain ⟨hfirst, hsecond⟩ := sharedStart_prefix first second
      exact ⟨hshared.trans hfirst, hshared.trans hsecond, hothers⟩
    · rintro ⟨hfirst, hsecond, hothers⟩
      exact ⟨prefix_sharedStart hfirst hsecond, hothers⟩

theorem sharedStart_append (es cs ds : List Text) :
    sharedStart (es ++ cs) (es ++ ds) = es ++ sharedStart cs ds := by
  induction es with
  | nil => rfl
  | cons e es ih => rw [List.cons_append, List.cons_append, sharedStart, if_pos BEq.rfl, ih]; rfl

theorem append_foldl_sharedStart (es first : List Text) (others : List (List Text)) :
    (others.map (es ++ ·)).foldl sharedStart (es ++ first) =
      es ++ others.foldl sharedStart first := by
  induction others generalizing first with
  | nil => rfl
  | cons second others ih => rw [List.map_cons, List.foldl_cons, sharedStart_append, ih]; rfl

end Text

namespace Names

/-- **With what the names share behind it, a beginning of all of them becomes the longest one.** -/
theorem exists_commonRun {names : List Text} {start : Text} (hne : names ≠ [])
    (hstart : ∀ name ∈ names, Text.beginsWith name start = true) :
    ∃ run, commonRun start names = some run ∧ ∀ t,
      Text.beginsWith (start ++ run) t = true ↔ ∀ name ∈ names, Text.beginsWith name t = true := by
  have hbehind : ∀ name ∈ names, Text.characters start ++
      (Text.characters name).drop (Text.width start) = Text.characters name := by
    intro name hname
    obtain ⟨rest, hrest⟩ := Text.beginsWith_iff.mp (hstart name hname)
    rw [← hrest, Text.width, List.drop_left]
  cases names with
  | nil => exact absurd rfl hne
  | cons first others =>
    obtain ⟨hfirst, hothers⟩ := List.forall_mem_cons.mp hbehind
    let behind (name : Text) : List Text := (Text.characters name).drop (Text.width start)
    let shared : List Text := (others.map behind).foldl Text.sharedStart (behind first)
    have hshared : Text.characters start ++ shared =
        (others.map Text.characters).foldl Text.sharedStart (Text.characters first) := by
      rw [← Text.append_foldl_sharedStart, List.map_map, hfirst]
      exact congrArg (List.foldl _ _) (List.map_congr_left hothers)
    have hiff := Text.prefix_foldl_sharedStart (Text.characters first) (others.map Text.characters)
    rw [← hshared, ← List.map_cons] at hiff
    have hcharacters : Text.characters (start ++ shared.flatten) =
        Text.characters start ++ shared := by
      have hprefix := (hiff _).mp List.prefix_rfl _ List.mem_cons_self
      have hself := Text.characters_of_prefix hprefix
      rwa [List.flatten_append, Text.characters_flatten] at hself
    refine ⟨shared.flatten, rfl, fun t => ?_⟩
    rw [Text.beginsWith_iff, hcharacters, hiff, List.forall_mem_map]
    exact forall₂_congr fun name _ => Text.beginsWith_iff.symm

end Names

end ConfigShell
