/-
  PhpNames.Proofs.UnionType.CacheRuns — a cache that is asked one text after another.

  What a cache remembers is decided by the texts it has been asked for since it was cleared last:

      the remembered texts   =   the first `capacity` distinct ones of them,

  each with its own reading (`Remembers`).  A request keeps this (`Remembers.serve`), so it holds
  after any number of requests (`remembers_foldl`).  Therefore nobody can tell from the unions
  whether a cache was used, and its size is known without looking at it
  (`transparent_and_bounded`).
-/
import PhpNames.Proofs.UnionType.FirstSeen
import PhpNames.UnionType.Cache

namespace PhpNames.TypeCache

/-! ## §1. Requests. -/

/-- What a cache is used for. -/
inductive Request where
  | read (text : String)
  | clear
  deriving DecidableEq, Repr

/-- Serves a request: the union that is handed out, if one was asked for, and the cache
    afterwards. -/
def serve (c : TypeCache) : Request → Option UnionType × TypeCache
  | .read text => ((c.read text).1, (c.read text).2)
  | .clear => (none, c.clear)

/-- The cache after a sequence of requests. -/
def after (c : TypeCache) (rs : List Request) : TypeCache :=
  rs.foldl (fun c r => (c.serve r).2) c

/-- The unions that a sequence of requests is answered with, one for each request. -/
def replies (c : TypeCache) : List Request → List (Option UnionType)
  | [] => []
  | r :: rs => (c.serve r).1 :: replies (c.serve r).2 rs

namespace Request

/-- What a request is answered with if no text is ever remembered. -/
def reply : Request → Option UnionType
  | read text => some (.ofText text)
  | clear => none

/-- The texts asked for since the last clearing, given those before the request. -/
def extend (texts : List String) : Request → List String
  | read text => texts ++ [text]
  | clear => []

/-- The distinct texts asked for since the last clearing, in the order of the first requests. -/
def texts (rs : List Request) : List String := (rs.foldl extend []).eraseDups

end Request

/-! ## §2. What a cache remembers. -/

/-- The cache has been asked for the texts `asked` since it was cleared: it remembers the readings
    of the first distinct ones for which it has room, and nothing else. -/
structure Remembers (c : TypeCache) (asked : List String) : Prop where
  entries : ∀ text, c.entries[text]? =
    if text ∈ asked.eraseDups.take c.capacity then some (UnionType.ofText text) else none
  size : c.size = min c.capacity asked.eraseDups.length

theorem remembers_ofCapacity (capacity : Nat) : (ofCapacity capacity).Remembers [] where
  entries text := by simp [ofCapacity]
  size := by simp [ofCapacity, TypeCache.size]

theorem Remembers.clear {c : TypeCache} : c.clear.Remembers [] where
  entries text := by simp [TypeCache.clear]
  size := by simp [TypeCache.clear, TypeCache.size]

/-- A text that is remembered is answered from the cache, which stays as it is. -/
theorem read_of_some {c : TypeCache} {text : String} {u : UnionType}
    (h : c.entries[text]? = some u) : c.read text = (u, c) := by
  unfold read
  rw [h]

/-- Any other text is read, and remembered if there is room. -/
theorem read_of_none {c : TypeCache} {text : String} (h : c.entries[text]? = none) :
    c.read text = (.ofText text,
      if c.capacity ≤ c.size then c
      else { c with entries := c.entries.insert text (.ofText text) }) := by
  unfold read
  rw [h]

/-- What is remembered is what would be read. -/
theorem Remembers.value_read {c : TypeCache} {asked : List String} (h : c.Remembers asked)
    (text : String) : (c.read text).1 = .ofText text := by
  have hentry := h.entries text
  split at hentry
  · rw [read_of_some hentry]
  · rw [read_of_none hentry]

/-- A text that is new, with room for it, becomes the last of the remembered ones. -/
theorem Remembers.insert {c : TypeCache} {asked : List String} (h : c.Remembers asked)
    {text : String} (hnew : text ∉ asked) (hroom : c.size < c.capacity) :
    Remembers { c with entries := c.entries.insert text (.ofText text) } (asked ++ [text]) := by
  have hlt : asked.eraseDups.length < c.capacity := by
    have hsize := h.size
    omega
  -- there is still room, so nothing of what was asked has been cut off
  have hold : asked.eraseDups.take c.capacity = asked.eraseDups :=
    List.take_of_length_le (by omega)
  have htexts : (asked ++ [text]).eraseDups = asked.eraseDups ++ [text] := by
    rw [eraseDups_concat, if_neg hnew]
  have hnone : c.entries[text]? = none := by
    rw [h.entries, if_neg]
    rw [hold, List.mem_eraseDups]
    exact hnew
  constructor
  · intro other
    show (c.entries.insert text (.ofText text))[other]? = _
    have hall : (asked.eraseDups ++ [text]).take c.capacity = asked.eraseDups ++ [text] :=
      List.take_of_length_le (by simp; omega)
    rw [Std.ExtTreeMap.getElem?_insert, htexts, hall, h.entries, hold]
    -- the new text is the last one asked, every other one is where it was
    by_cases heq : text = other
    · subst heq
      simp
    · have hne : ¬other = text := fun he => heq he.symm
      simp [heq, hne]
  · show (c.entries.insert text (.ofText text)).size = _
    have hfresh : c.entries.contains text = false := by
      rw [← Std.ExtTreeMap.isSome_getElem?_eq_contains, hnone]
      rfl
    have hsize : c.entries.size = min c.capacity asked.eraseDups.length := h.size
    rw [Std.ExtTreeMap.size_insert, hfresh, htexts, List.length_append, hsize]
    simp only [Bool.false_eq_true, if_false, List.length_singleton]
    omega

/-- A text that is not new, or for which there is no room, changes nothing. -/
theorem Remembers.skip {c : TypeCache} {asked : List String} (h : c.Remembers asked)
    {text : String} (hskip : text ∈ asked ∨ c.capacity ≤ c.size) :
    c.Remembers (asked ++ [text]) := by
  by_cases hmem : text ∈ asked
  · have htexts : (asked ++ [text]).eraseDups = asked.eraseDups := by
      rw [eraseDups_concat, if_pos hmem]
    exact ⟨by rw [htexts]; exact h.entries, by rw [htexts]; exact h.size⟩
  · have htexts : (asked ++ [text]).eraseDups = asked.eraseDups ++ [text] := by
      rw [eraseDups_concat, if_neg hmem]
    -- there is no room, so the first texts are the same with one more behind them
    have hfull : c.capacity ≤ asked.eraseDups.length := by
      have hsize := h.size
      have hroom := hskip.resolve_left hmem
      omega
    constructor
    · intro other
      rw [htexts, List.take_append_of_le_length hfull]
      exact h.entries other
    · rw [htexts, List.length_append, h.size]
      omega

/-! ## §3. One request (the crux). -/

/-- After a reading the text is among those asked for. -/
theorem Remembers.read {c : TypeCache} {asked : List String} (h : c.Remembers asked)
    (text : String) : (c.read text).2.Remembers (asked ++ [text]) := by
  have hentry := h.entries text
  split at hentry
  · next hmem =>
    -- the text is remembered, so it has been asked for
    rw [read_of_some hentry]
    exact h.skip (Or.inl (List.mem_eraseDups.mp (List.mem_of_mem_take hmem)))
  · next hnot =>
    rw [read_of_none hentry]
    by_cases hfull : c.capacity ≤ c.size
    · rw [if_pos hfull]
      exact h.skip (Or.inr hfull)
    · rw [if_neg hfull]
      apply h.insert _ (Nat.lt_of_not_le hfull)
      -- while there is room, every text that has been asked for is remembered
      intro hasked
      apply hnot
      rw [List.take_of_length_le]
      · exact List.mem_eraseDups.mpr hasked
      · have hsize := h.size
        omega

/-- **One request** keeps the account of what has been asked for. -/
theorem Remembers.serve {c : TypeCache} {asked : List String} (h : c.Remembers asked)
    (r : Request) : (c.serve r).2.Remembers (r.extend asked) := by
  cases r with
  | read text => exact h.read text
  | clear => exact Remembers.clear

/-- The reply is the union that the text is read as, remembered or not. -/
theorem Remembers.reply_serve {c : TypeCache} {asked : List String} (h : c.Remembers asked)
    (r : Request) : (c.serve r).1 = r.reply := by
  cases r with
  | read text => exact congrArg some (h.value_read text)
  | clear => rfl

/-- A request for a text keeps the readings that are remembered. -/
theorem entries_read {c : TypeCache} {known : String} {u : UnionType}
    (h : c.entries[known]? = some u) (text : String) :
    (c.read text).2.entries[known]? = some u := by
  cases hentry : c.entries[text]? with
  | some v =>
    rw [read_of_some hentry]
    exact h
  | none =>
    rw [read_of_none hentry]
    show (if c.capacity ≤ c.size then c else _).entries[known]? = some u
    split
    · exact h
    · -- only a text that was not there is put in
      have hne : text ≠ known := by
        rintro rfl
        rw [hentry] at h
        cases h
      rw [Std.ExtTreeMap.getElem?_insert]
      simp [hne, h]

/-! ## §4. Any number of requests. -/

/-- Any number of requests keep the account. -/
theorem remembers_foldl (rs : List Request) {c : TypeCache} {asked : List String}
    (h : c.Remembers asked) : (c.after rs).Remembers (rs.foldl Request.extend asked) := by
  induction rs generalizing c asked with
  | nil => exact h
  | cons r rs ih => exact ih (h.serve r)

/-- The bound stays as it was. -/
theorem capacity_after (rs : List Request) (c : TypeCache) :
    (c.after rs).capacity = c.capacity := by
  induction rs generalizing c with
  | nil => rfl
  | cons r rs ih =>
    show ((c.serve r).2.after rs).capacity = c.capacity
    rw [ih]
    cases r with
    | read text => exact capacity_read c text
    | clear => exact capacity_clear c

/-- All replies are as without a cache. -/
theorem Remembers.replies {c : TypeCache} {asked : List String} (h : c.Remembers asked)
    (rs : List Request) : c.replies rs = rs.map Request.reply := by
  induction rs generalizing c asked with
  | nil => rfl
  | cons r rs ih =>
    show (c.serve r).1 :: (c.serve r).2.replies rs = r.reply :: rs.map Request.reply
    rw [h.reply_serve, ih (h.serve r)]

/-- **A cache cannot be noticed, and it stays within its bound**: every sequence of requests is
    answered as without a cache.  After it, and so after each of its requests, the cache holds as
    many texts as have been asked for since the last clearing, up to its capacity, and these are
    the first ones, each with its reading; a further text never replaces or removes one of them. -/
theorem transparent_and_bounded (capacity : Nat) (rs : List Request) :
    (ofCapacity capacity).replies rs = rs.map Request.reply ∧
    ((ofCapacity capacity).after rs).size = min capacity (Request.texts rs).length ∧
    (∀ text : String, ((ofCapacity capacity).after rs).entries[text]? =
      if text ∈ (Request.texts rs).take capacity then some (.ofText text) else none) ∧
    ∀ (text known : String) (u : UnionType),
      ((ofCapacity capacity).after rs).entries[known]? = some u →
        ((ofCapacity capacity).after (rs ++ [.read text])).entries[known]? = some u := by
  -- an empty cache remembers nothing, and each request keeps what is remembered in step
  have hempty := remembers_ofCapacity capacity
  have hrun := remembers_foldl rs hempty
  have hcapacity : ((ofCapacity capacity).after rs).capacity = capacity :=
    capacity_after rs (ofCapacity capacity)
  refine ⟨hempty.replies rs, ?_, ?_, ?_⟩
  · rw [hrun.size, hcapacity]
    rfl
  · intro text
    rw [hrun.entries, hcapacity]
    rfl
  · intro text known u hknown
    unfold after
    rw [List.foldl_append]
    exact entries_read hknown text

/-- A cache for one text keeps the first text that it was asked for after it was cleared. -/
theorem transparent_and_bounded_one :
    ∃ rs : List Request, ∃ u : UnionType,
      (ofCapacity 1).replies rs = rs.map Request.reply ∧
      ((ofCapacity 1).after rs).size = 1 ∧
      ((ofCapacity 1).after rs).entries["B|A"]? = some u ∧
      ((ofCapacity 1).after (rs ++ [.read "C"])).entries["B|A"]? = some u := by
  let rs : List Request := [.read "A", .clear, .read "B|A", .read "A", .read "B|A"]
  obtain ⟨hreplies, hsize, hentries, hkept⟩ := transparent_and_bounded 1 rs
  have hmem : "B|A" ∈ (Request.texts rs).take 1 := by decide
  have hknown := hentries "B|A"
  rw [if_pos hmem] at hknown
  exact ⟨rs, .ofText "B|A", hreplies, hsize, hknown, hkept "C" "B|A" _ hknown⟩

end PhpNames.TypeCache
