import Soika.Domain.Find
import Soika.Grouping.Masking

/-! # Hashes of builds

The path of a bundle names the build by a hash in its file name, and its address may go on with a
query. Neither is left in the normalized path, so the frames of two builds have one
signature.
-/

namespace Soika

def isMark (c : Char) : Bool := c = '?' || c = '#'

def withoutQuery (p : List Char) : List Char := cutAt ['#'] (cutAt ['?'] p)

def withoutScheme (p : List Char) : List Char :=
  stripPrefix "app://".toList
    (stripPrefix "webpack-internal:///".toList (stripPrefix "webpack://".toList p))

theorem normalizePath_eq (path : String) : normalizePath path =
    String.ofList (stripBundleHash (withoutScheme (withoutQuery (trimChars path.toList)))) := rfl

theorem withoutQuery_eq (p : List Char) : withoutQuery p = p.takeWhile fun c => ! isMark c := by
  rw [withoutQuery, cutAt_char, cutAt_char, List.takeWhile_takeWhile]
  congr 1
  funext c
  by_cases hquery : c = '?' <;> by_cases hfragment : c = '#' <;> simp [isMark, hquery, hfragment]

theorem withoutQuery_append_of_mem {p q : List Char} (h : ∃ c ∈ p, isMark c = true) :
    withoutQuery (p ++ q) = withoutQuery p := by
  obtain ⟨c, hc, hmark⟩ := h
  rw [withoutQuery_eq, withoutQuery_eq, List.takeWhile_append, if_neg]
  intro hlength
  have hall := List.takeWhile_eq_self_iff.mp
    ((List.takeWhile_prefix _).eq_of_length hlength) c hc
  rw [hmark] at hall
  cases hall

theorem withoutQuery_append_of_forall {p q : List Char} (h : ∀ c ∈ p, isMark c = false) :
    withoutQuery (p ++ q) = p ++ withoutQuery q := by
  rw [withoutQuery_eq, withoutQuery_eq]
  exact List.takeWhile_append_of_pos fun c hc => by rw [h c hc]; rfl

theorem withoutQuery_prefix {p q r : List Char} (hr : r <+: p ++ q)
    (hq : ∀ c ∈ q.head?, isMark c = true) : withoutQuery r <+: p := by
  rw [withoutQuery_eq]
  have hprefix := (List.takeWhile_prefix (fun c => ! isMark c) (l := r)).trans hr
  rcases List.prefix_or_prefix_of_prefix hprefix (List.prefix_append p q) with h | ⟨t, ht⟩
  · exact h
  · cases t with
    | nil =>
      rw [← ht, List.append_nil]
    | cons c t =>
      rw [← ht, List.prefix_append_right_inj] at hprefix
      obtain ⟨rest, rfl⟩ := hprefix
      have hmark := hq c rfl
      have hnot := List.mem_takeWhile_imp (ht ▸ List.mem_append_right p List.mem_cons_self)
      rw [hmark] at hnot
      cases hnot

theorem stripPrefix_append {init s rest : List Char} {c : Char} (hc : c ∉ rest) :
    stripPrefix (init ++ [c]) (s ++ rest) = stripPrefix (init ++ [c]) s ++ rest := by
  unfold stripPrefix
  simp only [List.isPrefixOf_iff_prefix, prefix_of_append hc]
  split
  · rename_i h
    rw [List.drop_append_of_le_length h.length_le]
  · rfl

theorem withoutScheme_append {p rest : List Char} (h : '/' ∉ rest) :
    withoutScheme (p ++ rest) = withoutScheme p ++ rest := by
  have hstrip : ∀ (scheme : String) (s : List Char), scheme.toList.getLast? = some '/' →
      stripPrefix scheme.toList (s ++ rest) = stripPrefix scheme.toList s ++ rest := by
    intro scheme s hlast
    obtain ⟨init, hinit⟩ := List.getLast?_eq_some_iff.mp hlast
    rw [hinit]
    exact stripPrefix_append h
  rw [withoutScheme, hstrip _ _ rfl, hstrip _ _ rfl, hstrip _ _ rfl]
  rfl

theorem isHashLike_alphanum {hash : List Char} (h : isHashLike hash = true) :
    ∀ c ∈ hash, c.isAlphanum = true := by
  simp only [isHashLike, Bool.and_eq_true] at h
  exact List.all_eq_true.mp h.1.2

theorem not_mem_of_isHashLike {hash : List Char} (h : isHashLike hash = true) {c : Char}
    (hc : c.isAlphanum = false) : c ∉ hash := by
  intro hmem
  rw [isHashLike_alphanum h c hmem] at hc
  cases hc

def stripFile (path dir file : List Char) : List Char :=
  match rfindText ['.'] file with
  | none => path
  | some i =>
    let stem := file.take i
    let strip (sep : Char) : Option (List Char) :=
      (rfindText [sep] stem).bind fun j =>
        if isHashLike (stem.drop (j + 1)) then some (dir ++ stem.take j ++ file.drop i) else none
    ((strip '.').or (strip '-')).getD path

theorem stripBundleHash_eq (path : List Char) : stripBundleHash path =
    match rfindText ['/'] path with
    | some i => stripFile path (path.take (i + 1)) (path.drop (i + 1))
    | none => stripFile path [] path := by
  unfold stripBundleHash
  cases rfindText ['/'] path with
  | none => rfl
  | some i => rfl

theorem stripBundleHash_append {p rest : List Char} (h : '/' ∉ rest) :
    ∃ dir name, p = dir ++ name ∧
      stripBundleHash (p ++ rest) = stripFile (p ++ rest) dir (name ++ rest) := by
  rw [stripBundleHash_eq, rfindText_char_append h]
  cases hi : rfindText ['/'] p with
  | none => exact ⟨[], p, rfl, rfl⟩
  | some i =>
    have hlt := rfindText_char_lt hi
    refine ⟨p.take (i + 1), p.drop (i + 1), (List.take_append_drop _ _).symm, ?_⟩
    dsimp only
    rw [List.take_append_of_le_length hlt, List.drop_append_of_le_length hlt]

/-- What follows the last dot of a stem that ends in a dash and a hash is no hash. -/
theorem not_isHashLike_of_dash {name hash : List Char} {j : ℕ} (h : j < name.length) :
    isHashLike ((name ++ '-' :: hash).drop (j + 1)) = false := by
  rw [List.drop_append_of_le_length h]
  apply Bool.eq_false_iff.mpr
  intro hlike
  have := isHashLike_alphanum hlike '-' (List.mem_append_right _ List.mem_cons_self)
  revert this
  decide

theorem stripFile_bundle (path dir name : List Char) {sep : Char} (hsep : sep = '.' ∨ sep = '-')
    {hash ext : List Char} (hhash : isHashLike hash = true) (hdot : '.' ∉ ext) :
    stripFile path dir (name ++ sep :: (hash ++ '.' :: ext)) = dir ++ name ++ '.' :: ext := by
  have hstem : name ++ sep :: (hash ++ '.' :: ext) = (name ++ sep :: hash) ++ '.' :: ext := by simp
  rw [hstem, stripFile, rfindText_char_last hdot]
  dsimp only
  rw [List.take_left, List.drop_left]
  have hlast : rfindText [sep] (name ++ sep :: hash) = some name.length := by
    apply rfindText_char_last
    apply not_mem_of_isHashLike hhash
    rcases hsep with rfl | rfl <;> rfl
  have hhash' : isHashLike ((name ++ sep :: hash).drop (name.length + 1)) = true := by
    rwa [List.drop_length_add_append, List.drop_succ_cons, List.drop_zero]
  rcases hsep with rfl | rfl
  · rw [hlast, Option.bind_some, if_pos hhash', List.take_left, Option.some_or, Option.getD_some]
  · have hother : rfindText ['.'] (name ++ '-' :: hash) = rfindText ['.'] name := by
      apply rfindText_char_append
      have := not_mem_of_isHashLike hhash (c := '.') rfl
      simpa using this
    rw [hother, hlast, Option.bind_some, if_pos hhash', List.take_left]
    cases hi : rfindText ['.'] name with
    | none => rfl
    | some i =>
      rw [Option.bind_some, not_isHashLike_of_dash (rfindText_char_lt hi)]
      rfl

theorem stripBundleHash_bundle (p : List Char) {sep : Char} (hsep : sep = '.' ∨ sep = '-')
    {hash ext : List Char} (hhash : isHashLike hash = true) (hdot : '.' ∉ ext) (hslash : '/' ∉ ext) :
    stripBundleHash (p ++ sep :: (hash ++ '.' :: ext)) = p ++ '.' :: ext := by
  have hrest : '/' ∉ sep :: (hash ++ '.' :: ext) := by
    have := not_mem_of_isHashLike hhash (c := '/') rfl
    rcases hsep with rfl | rfl <;> simp [this, hslash]
  obtain ⟨dir, name, rfl, heq⟩ := stripBundleHash_append (p := p) hrest
  rw [heq, stripFile_bundle _ dir name hsep hhash hdot]

/-- The path of a file of a build: its hash stands between a dot or a dash and the extension, and a
query or a fragment may follow. -/
def bundlePath (before : List Char) (sep : Char) (hash ext query : List Char) : List Char :=
  before ++ sep :: (hash ++ '.' :: ext) ++ query

/-- Two paths that differ in the hash of their file, or behind a question mark or a number sign. -/
inductive Rebuilt : String → String → Prop
  | hash (before : List Char) {sep : Char} (hsep : sep = '.' ∨ sep = '-') {hash hash' : List Char}
      (hhash : isHashLike hash = true) (hhash' : isHashLike hash' = true) {ext : List Char}
      (hdot : '.' ∉ ext) (hslash : '/' ∉ ext) {query : List Char}
      (hquery : ∀ c ∈ query.head?, isMark c = true) :
      Rebuilt (.ofList (bundlePath before sep hash ext query))
        (.ofList (bundlePath before sep hash' ext query))
  | query (before : List Char) {mark : Char} (hmark : isMark mark = true)
      (after after' : List Char) :
      Rebuilt (.ofList (before ++ mark :: after)) (.ofList (before ++ mark :: after'))

theorem trimmed_bundlePath (before : List Char) {sep : Char} (hsep : sep = '.' ∨ sep = '-')
    (hash ext query : List Char) :
    trimChars (bundlePath before sep hash ext query) = before.dropWhile isWhitespace ++
      sep :: (hash ++ '.' :: (ext ++ query).rdropWhile isWhitespace) := by
  have hpart : bundlePath before sep hash ext query =
      before ++ (sep :: hash ++ ['.']) ++ (ext ++ query) := by simp [bundlePath]
  rw [hpart, trimChars_append (by simp)]
  · simp
  · constructor
    · rcases hsep with rfl | rfl <;> rfl
    · rw [List.getLast_append_singleton]
      rfl

theorem isMark_hash {sep : Char} (hsep : sep = '.' ∨ sep = '-') {hash : List Char}
    (hhash : isHashLike hash = true) : ∀ c ∈ sep :: (hash ++ ['.']), isMark c = false := by
  intro c hc
  rcases List.mem_cons.mp hc with rfl | hc
  · rcases hsep with rfl | rfl <;> rfl
  · rcases List.mem_append.mp hc with hc | hc
    · by_contra hmark
      rw [Bool.not_eq_false, isMark, Bool.or_eq_true, decide_eq_true_iff, decide_eq_true_iff]
        at hmark
      have halnum := isHashLike_alphanum hhash c hc
      rcases hmark with rfl | rfl <;> exact absurd halnum (by decide)
    · rw [List.mem_singleton.mp hc]
      rfl

def normalizedBundle (before ext query : List Char) : List Char :=
  let dir := before.dropWhile isWhitespace
  if dir.any isMark then stripBundleHash (withoutScheme (withoutQuery dir))
  else withoutScheme dir ++ '.' :: withoutQuery ((ext ++ query).rdropWhile isWhitespace)

theorem normalizePath_bundlePath (before : List Char) {sep : Char} (hsep : sep = '.' ∨ sep = '-')
    {hash ext query : List Char} (hhash : isHashLike hash = true) (hdot : '.' ∉ ext)
    (hslash : '/' ∉ ext) (hquery : ∀ c ∈ query.head?, isMark c = true) :
    normalizePath (.ofList (bundlePath before sep hash ext query)) =
      String.ofList (normalizedBundle before ext query) := by
  rw [normalizePath_eq, String.toList_ofList, trimmed_bundlePath before hsep, normalizedBundle]
  generalize before.dropWhile isWhitespace = dir
  have hleft := withoutQuery_prefix (List.rdropWhile_prefix isWhitespace (l := ext ++ query)) hquery
  generalize (ext ++ query).rdropWhile isWhitespace = rest at hleft ⊢
  congr 1
  split
  · rename_i hmark
    rw [withoutQuery_append_of_mem (List.any_eq_true.mp hmark)]
  · rename_i hmark
    have hdir : ∀ c ∈ dir, isMark c = false := by simpa using hmark
    have hsplit : sep :: (hash ++ '.' :: rest) = sep :: (hash ++ ['.']) ++ rest := by simp
    rw [withoutQuery_append_of_forall hdir, hsplit,
      withoutQuery_append_of_forall (isMark_hash hsep hhash), withoutScheme_append]
    · have hjoin : sep :: (hash ++ ['.']) ++ withoutQuery rest =
          sep :: (hash ++ '.' :: withoutQuery rest) := by simp
      rw [hjoin]
      apply stripBundleHash_bundle _ hsep hhash
      · exact fun h => hdot (hleft.subset h)
      · exact fun h => hslash (hleft.subset h)
    · intro hmem
      rcases List.mem_append.mp hmem with hmem | hmem
      · have := not_mem_of_isHashLike hhash (c := '/') rfl
        rcases hsep with rfl | rfl <;> simp [this] at hmem
      · exact hslash (hleft.subset hmem)

/-- Nothing behind the first question mark or number sign is left. -/
theorem normalizePath_query (before : List Char) {mark : Char} (hmark : isMark mark = true)
    (after after' : List Char) : normalizePath (.ofList (before ++ mark :: after)) =
      normalizePath (.ofList (before ++ mark :: after')) := by
  have hspace : isWhitespace mark = false := by
    rw [isMark, Bool.or_eq_true, decide_eq_true_iff, decide_eq_true_iff] at hmark
    rcases hmark with rfl | rfl <;> rfl
  have hleft : ∀ rest, withoutQuery (trimChars (before ++ mark :: rest)) =
      withoutQuery (before.dropWhile isWhitespace ++ [mark]) := by
    intro rest
    have hpart : before ++ mark :: rest = before ++ [mark] ++ rest := by simp
    rw [hpart, trimChars_append (List.cons_ne_nil mark []) ⟨hspace, hspace⟩]
    exact withoutQuery_append_of_mem ⟨mark, by simp, hmark⟩
  rw [normalizePath_eq, normalizePath_eq, String.toList_ofList, String.toList_ofList, hleft, hleft]

theorem Rebuilt.normalizePath {path path' : String} (h : Rebuilt path path') :
    normalizePath path = normalizePath path' := by
  cases h with
  | hash before hsep hhash hhash' hdot hslash hquery =>
    rw [normalizePath_bundlePath before hsep hhash hdot hslash hquery,
      normalizePath_bundlePath before hsep hhash' hdot hslash hquery]
  | query before hmark after after' => exact normalizePath_query before hmark after after'

/-- Builds of one file have one normalized path, and frames that are in them have one signature, with
or without a function. -/
theorem rebuilt_signature {path path' : String} (h : Rebuilt path path') :
    normalizePath path = normalizePath path' ∧ ∀ frame frame' : Frame,
      frame.module = frame'.module → frame.function = frame'.function →
      frame.filename.or frame.absPath = some path →
      frame'.filename.or frame'.absPath = some path' →
      frameSignature frame = frameSignature frame' := by
  constructor
  · exact h.normalizePath
  · intro frame frame' hmodule hfunction hpath hpath'
    unfold frameSignature
    rw [hmodule, hfunction, hpath, hpath', Option.map_some, Option.map_some, h.normalizePath]

/-- Two builds of `main.js`. -/
theorem rebuilt_signature_main :
    normalizePath (.ofList (bundlePath "app:///static/main".toList '.' "4f3a9b2c".toList
      "js".toList "?v=1".toList)) =
    normalizePath (.ofList (bundlePath "app:///static/main".toList '.' "0d1e2f3a4b".toList
      "js".toList "?v=1".toList)) :=
  (rebuilt_signature (.hash _ (.inl rfl) (by decide) (by decide) (by decide) (by decide)
    (by
      intro c hc
      obtain rfl : '?' = c := Option.some.inj hc
      rfl))).1

end Soika
