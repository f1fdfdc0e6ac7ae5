import Roci.Lmdb.Steps

/-!
# The embedded engine answers like the log engine

Tables that represent the contents of a state of the log engine give the
answers of that state to every query whose arguments have no zero byte.
-/

namespace Roci.Lmdb

open Roci.Library Roci.Metadata

/-! ## Pages -/

/-- A walk over a range whose keys are all wanted takes a page of it. -/
theorem collectPage_eq {Entry Item : Type} {mine : List Bytes → Bool}
    {item : List Bytes → Bytes → Option Item} {pair : Entry → Bytes × Bytes} {limit : Nat}
    {entries : List Entry} (result : Entry → Item)
    (wanted : ∀ entry ∈ entries, mine (splitKey (pair entry).1) = true ∧
      item (splitKey (pair entry).1) (pair entry).2 = some (result entry))
    (items : List Item) (room : items.length ≤ limit) :
    Tables.collectPage mine item limit (entries.map pair) items =
      takePage (items ++ entries.map result) limit := by
  induction entries generalizing items with
  | nil => simp [Tables.collectPage, takePage, List.take_of_length_le room,
      List.drop_of_length_le room]
  | cons entry entries ih =>
    rw [List.forall_mem_cons] at wanted
    rw [List.map_cons, show pair entry = ((pair entry).1, (pair entry).2) from rfl]
    simp only [Tables.collectPage, wanted.1.1, wanted.1.2, Bool.not_true, Bool.false_eq_true,
      if_false, Option.toList_some]
    by_cases full : items.length = limit
    · rw [if_pos full]
      simp [takePage, ← full]
    rw [if_neg full, ih wanted.2 _ (by simp; omega)]
    simp

variable {table : ByteMap Bytes}

theorem hasAnyWithPrefix_eq {front : List String} {high : Bytes}
    (bound : prefixSuccessor (keyOf front) = some high) :
    hasAnyWithPrefix table (keyOf front) = !(table.range (startKey front none) high).isEmpty := by
  rw [hasAnyWithPrefix, bound]
  rfl

theorem PairTable.range_startKey {value : String → String → Option Bytes}
    (represented : PairTable table value) {repo : String} (repoClean : NulFree repo) {high : Bytes}
    (bound : prefixSuccessor (keyOf [repo]) = some high) {Item : Type} (items : List Item)
    (name : Item → String) (bytes : Item → Bytes)
    (ascending : items.Pairwise fun first second => name first < name second)
    (listed : ∀ key found, value repo key = some found ↔
      ∃ item ∈ items, name item = key ∧ bytes item = found)
    (last : Option String) :
    table.range (startKey [repo] last) high =
      (items.filter fun item => after last (name item)).map
        fun item => (keyOf [repo, name item], bytes item) := by
  refine represented.stored.range_startKey (by simpa using repoClean) (by simp) bound items name
    bytes ?_ ascending ?_ last
  · intro item membership
    exact (represented.clean repo _ _ ((listed _ _).mpr ⟨item, membership, rfl, rfl⟩)).2
  rintro rest found
  rcases rest with _ | ⟨key, _ | ⟨second, rest⟩⟩
  · simp [pairEntries]
  · simp [pairEntries, listed]
  · simp [pairEntries]

theorem pageStart_eq (front : List String) (last : Option String) :
    Tables.pageStart (front.map utf8) last = startKey front last := by
  cases last with
  | none => rfl
  | some cursor => simp [Tables.pageStart, startKey, keyOf]

variable (repoState : RepoState) {artifactType : Option String}

section

variable {reader : JsonReader} {tables : Tables} {state : State}
  (represents : Represents reader tables state.contents) {repo : String}

include represents

variable {high : Bytes} {blob digest subject referrer tag type : String}

theorem tag_clean {entry : String × String}
    (membership : (tag, entry) ∈ (state.repo repo).tags.toList) :
    NulFree tag ∧ NulFree entry.1 := by
  have found := Std.ExtTreeMap.mem_toList_iff_getElem?_eq_some.mp membership
  exact ⟨(represents.tags.forward.clean repo tag (tagEntry entry) (by
    simp [State.contents, RepoState.contents, found])).2,
    represents.tags.digestClean repo tag entry.1 entry.2 found⟩

section

variable (repoClean : NulFree repo)

include repoClean

theorem resolveTag_eq (tagClean : NulFree tag) :
    tables.resolveTag repo tag = state.resolveTag repo tag := by
  have lookup := represents.tags.forward.stored.lookup [repo, tag] (by simp [repoClean, tagClean])
  rw [State.resolveTag_eq, Tables.resolveTag, makeKey_two, lookup]
  simp only [pairEntries, State.contents, RepoState.contents]
  cases found : (state.repo repo).tags[tag]? with
  | none => rfl
  | some entry =>
    have digestClean := represents.tags.digestClean repo tag entry.1 entry.2 found
    simp [tagEntry, splitValue_tagValue digestClean]

theorem manifestMediaType_eq (digestClean : NulFree digest) :
    tables.manifestMediaType repo digest = state.manifestMediaType repo digest := by
  have lookup := represents.mediaTypes.stored.lookup [repo, digest]
    (by simp [repoClean, digestClean])
  rw [State.manifestMediaType_eq, Tables.manifestMediaType, makeKey_two, lookup]
  simp only [pairEntries, State.contents, RepoState.contents]
  cases (state.repo repo).mediaTypes[digest]? <;> simp

theorem checksum_eq (digestClean : NulFree digest) :
    tables.checksum repo digest = state.checksum repo digest := by
  have lookup := represents.checksums.stored.lookup [repo, digest]
    (by simp [repoClean, digestClean])
  rw [State.checksum_eq, Tables.checksum, makeKey_two, lookup]
  simp only [pairEntries, State.contents, RepoState.contents]
  cases (state.repo repo).checksums[digest]? <;> simp [decodeChecksum_encodeChecksum]

theorem mem_values_backrefs_iff (blobClean : NulFree blob) (value : Bytes) :
    value ∈ tables.backrefs.values (keyOf [repo, blob]) ↔
      ∃ manifest, (state.repo repo).Edge blob manifest ∧ value = utf8 manifest := by
  rw [represents.edges.forward]
  constructor
  · rintro ⟨other, source, manifest, edge, keys, rfl⟩
    have clean := represents.edges.clean other source manifest edge
    have same := @keyOf_injective [repo, blob] [other, source] (by simp [repoClean, blobClean])
      (by simp [clean]) keys
    simp only [List.cons.injEq, and_true] at same
    obtain ⟨rfl, rfl⟩ := same
    exact ⟨manifest, edge, rfl⟩
  rintro ⟨manifest, edge, rfl⟩
  exact ⟨repo, blob, manifest, edge, rfl, rfl⟩

theorem mem_backrefsOf_iff (blobClean : NulFree blob) (manifest : String) :
    manifest ∈ tables.backrefsOf repo blob ↔ manifest ∈ state.backrefs repo blob := by
  rw [State.backrefs_eq, Tables.backrefsOf, List.mem_filterMap]
  simp only [Std.ExtTreeSet.mem_toList, makeKey_two,
    mem_values_backrefs_iff represents repoClean blobClean]
  constructor
  · rintro ⟨_, ⟨target, edge, rfl⟩, decoded⟩
    rw [fromUtf8_utf8, Option.some.injEq] at decoded
    exact decoded ▸ edge
  intro edge
  exact ⟨utf8 manifest, ⟨manifest, edge, rfl⟩, by simp⟩

theorem hasReferrer_eq (subjectClean : NulFree subject) (referrerClean : NulFree referrer) :
    tables.hasReferrer repo subject referrer = state.hasReferrer repo subject referrer := by
  have lookup := represents.referrers.referrers.lookup [repo, subject, referrer]
    (by simp [repoClean, subjectClean, referrerClean])
  rw [State.hasReferrer_eq, Tables.hasReferrer, makeKey_three, lookup]
  simp only [referrerEntries, State.contents, RepoState.contents]
  cases found : (state.repo repo).referrers[subject]? with
  | none => rfl
  | some kept => simp

theorem range_tags (bound : prefixSuccessor (keyOf [repo]) = some high) (last : Option String) :
    tables.tags.range (startKey [repo] last) high =
      ((state.repo repo).tags.toList.filter fun entry => after last entry.1).map
        fun entry => (keyOf [repo, entry.1], tagEntry entry.2) := by
  refine represents.tags.forward.range_startKey repoClean bound _ Prod.fst
    (fun entry => tagEntry entry.2) (StringMap.keys_ascending _) (fun name bytes => ?_) last
  simp [State.contents, RepoState.contents, Std.ExtTreeMap.mem_toList_iff_getElem?_eq_some]

theorem tagsPage_eq (last : Option String) (limit : Nat) :
    tables.tagsPage repo last limit = state.tagsPage repo last limit := by
  obtain ⟨shared, _, bound⟩ := @prefixSuccessor_keyOf [repo] (by simp)
  have range := range_tags represents repoClean bound
  have any : hasAnyWithPrefix tables.tags (makePrefix [utf8 repo]) =
      !(state.repo repo).tags.isEmpty := by
    rw [makePrefix, makeKey_one, hasAnyWithPrefix_eq bound, range]
    simp [after]
  have start : Tables.pageStart [utf8 repo] last = startKey [repo] last := pageStart_eq [repo] last
  rw [State.tagsPage_eq]
  simp only [Tables.tagsPage, rangeOwned, any, start, Bool.not_not]
  rw [makePrefix, makeKey_one, bound, Option.map_some, range,
    collectPage_eq (fun entry => entry.1) (by
      rintro ⟨tag, entry⟩ membership
      have clean := tag_clean represents (List.mem_of_mem_filter membership)
      rw [splitKey_keyOf (by simp [repoClean, clean.1])]
      simp) [] (by simp),
    List.nil_append, ← Std.ExtTreeMap.map_fst_toList_eq_keys, List.filter_map]
  rfl

end

/-! ### Referrers -/

/-- The subject's referrers that a filter by artifact type leaves. -/
def listing (state : State) (repo subject : String) (artifactType : Option String) :
    List (String × Option String × Bytes) :=
  (state.repo repo).referrers[subject]?.elim [] (·.listing artifactType)

omit represents in
theorem listing_ascending (artifactType : Option String) :
    (listing state repo subject artifactType).Pairwise fun first second => first.1 < second.1 := by
  unfold listing
  cases (state.repo repo).referrers[subject]? with
  | none => exact .nil
  | some kept => exact kept.listing_ascending artifactType

omit represents in
theorem listing_eq_nil (empty : (listing state repo subject none).isEmpty = true)
    (artifactType : Option String) : listing state repo subject artifactType = [] := by
  unfold listing at *
  cases found : (state.repo repo).referrers[subject]? <;> simp_all [SubjectReferrers.listing]

section

variable (wellFormed : (state.repo repo).WellFormed reader)

include wellFormed

omit represents in
theorem mem_listing_iff {typed : Option String} {descriptor : Bytes} :
    (digest, typed, descriptor) ∈ listing state repo subject artifactType ↔
      (state.contents repo).referrer subject digest = some descriptor ∧
        typed = artifactTypeOf reader descriptor ∧
        ∀ type, artifactType = some type → typed = some type := by
  simp only [listing, State.contents, RepoState.contents]
  rcases found : (state.repo repo).referrers[subject]? with _ | kept
  · simp
  have stated := wellFormed.referrersTyped subject kept found digest
  simp only [Option.elim_some, SubjectReferrers.listing, List.mem_filter, Option.all_eq_true,
    decide_eq_true_iff, Std.ExtTreeMap.mem_toList_iff_getElem?_eq_some, Option.bind_some,
    Option.map_eq_some_iff, Prod.exists]
  grind

omit represents in
theorem referrersPage_listing (artifactType last : Option String) (limit : Nat) :
    state.referrersPage repo subject artifactType last limit =
      if (listing state repo subject none).isEmpty then none
      else some (takePage (((listing state repo subject artifactType).filter
        fun entry => after last entry.1).map fun entry => (entry.1, entry.2.2)) limit) := by
  rw [State.referrersPage_eq, listing, listing]
  cases found : (state.repo repo).referrers[subject]? with
  | none => rfl
  | some kept =>
    have inhabited := wellFormed.referrersInhabited subject kept found
    simp [SubjectReferrers.listing, SubjectReferrers.page_eq, inhabited]

variable (repoClean : NulFree repo) (subjectClean : NulFree subject)

theorem listing_clean {entry : String × Option String × Bytes}
    (member : entry ∈ listing state repo subject artifactType) : NulFree entry.1 :=
  (represents.referrers.clean repo subject entry.1 entry.2.2
    ((mem_listing_iff wellFormed).mp member).1).2.2.1

include repoClean subjectClean

theorem range_referrers (bound : prefixSuccessor (keyOf [repo, subject]) = some high)
    (last : Option String) :
    tables.referrers.range (startKey [repo, subject] last) high =
      ((listing state repo subject none).filter fun entry => after last entry.1).map
        fun entry => (keyOf [repo, subject, entry.1], entry.2.2) := by
  refine represents.referrers.referrers.range_startKey (by simp [repoClean, subjectClean])
    (by simp) bound _ Prod.fst (fun entry => entry.2.2)
    (fun _ => listing_clean represents wellFormed) (listing_ascending none)
    (fun rest value => ?_) last
  rcases rest with _ | ⟨digest, _ | ⟨second, rest⟩⟩ <;>
    simp [referrerEntries, mem_listing_iff wellFormed]

theorem hasAny_referrers :
    hasAnyWithPrefix tables.referrers (makePrefix [utf8 repo, utf8 subject]) =
      !(listing state repo subject none).isEmpty := by
  obtain ⟨shared, _, bound⟩ := @prefixSuccessor_keyOf [repo, subject] (by simp)
  rw [makePrefix, makeKey_two, hasAnyWithPrefix_eq bound,
    range_referrers represents wellFormed repoClean subjectClean bound]
  simp [after]

theorem untypedPage_eq (last : Option String) (limit : Nat) :
    tables.untypedPage repo subject last limit =
      state.referrersPage repo subject none last limit := by
  obtain ⟨shared, _, bound⟩ := @prefixSuccessor_keyOf [repo, subject] (by simp)
  have start : Tables.pageStart [utf8 repo, utf8 subject] last = startKey [repo, subject] last :=
    pageStart_eq [repo, subject] last
  rw [referrersPage_listing wellFormed]
  simp only [Tables.untypedPage, rangeOwned, start, Bool.not_not,
    hasAny_referrers represents wellFormed repoClean subjectClean]
  rw [makePrefix, makeKey_two, bound, Option.map_some,
    range_referrers represents wellFormed repoClean subjectClean bound,
    collectPage_eq (fun entry => (entry.1, entry.2.2)) (by
      rintro ⟨digest, entry⟩ member
      have clean := listing_clean represents wellFormed (List.mem_of_mem_filter member)
      rw [splitKey_keyOf (by simp [repoClean, subjectClean, clean])]
      simp) [] (by simp), List.nil_append]

section

variable (typeClean : NulFree type)

include typeClean

theorem range_byType (bound : prefixSuccessor (keyOf [repo, subject, type]) = some high)
    (last : Option String) :
    tables.referrersByType.range (startKey [repo, subject, type] last) high =
      ((listing state repo subject (some type)).filter fun entry => after last entry.1).map
        fun entry => (keyOf [repo, subject, type, entry.1], []) := by
  refine represents.referrers.byType.range_startKey (by simp [repoClean, subjectClean, typeClean])
    (by simp) bound _ Prod.fst (fun _ => []) (fun _ => listing_clean represents wellFormed)
    (listing_ascending _) (fun rest value => ?_) last
  rcases rest with _ | ⟨digest, _ | ⟨second, rest⟩⟩ <;>
    simp [referrersByTypeEntries, mem_listing_iff wellFormed, Option.bind_eq_some_iff]

theorem typedPage_eq (last : Option String) (limit : Nat) :
    tables.typedPage repo subject type last limit =
      state.referrersPage repo subject (some type) last limit := by
  obtain ⟨shared, _, bound⟩ := @prefixSuccessor_keyOf [repo, subject, type] (by simp)
  have start : Tables.pageStart [utf8 repo, utf8 subject, utf8 type] last =
      startKey [repo, subject, type] last := pageStart_eq [repo, subject, type] last
  have range := range_byType represents wellFormed repoClean subjectClean typeClean bound
  have any : hasAnyWithPrefix tables.referrersByType
      (makePrefix [utf8 repo, utf8 subject, utf8 type]) =
        !(listing state repo subject (some type)).isEmpty := by
    rw [makePrefix, makeKey_three, hasAnyWithPrefix_eq bound, range]
    simp [after]
  rw [referrersPage_listing wellFormed]
  simp only [Tables.typedPage, rangeOwned, start, any, Bool.not_not,
    hasAny_referrers represents wellFormed repoClean subjectClean]
  rw [makePrefix, makeKey_three, bound, Option.map_some, range,
    collectPage_eq (fun entry => (entry.1, entry.2.2)) (by
      rintro ⟨digest, typed, descriptor⟩ member
      have listed := List.mem_of_mem_filter member
      have clean := listing_clean represents wellFormed listed
      have lookup := represents.referrers.referrers.lookup [repo, subject, digest]
        (by simp [repoClean, subjectClean, clean])
      rw [splitKey_keyOf (by simp [repoClean, subjectClean, typeClean, clean])]
      simp only [keyOf, List.map_cons, List.map_nil] at lookup
      simp [lookup, referrerEntries, ((mem_listing_iff wellFormed).mp listed).1])
      [] (by simp), List.nil_append]
  by_cases empty : (listing state repo subject none).isEmpty = true
  · simp [listing_eq_nil empty]
  · cases listing state repo subject (some type) <;> simp [empty, takePage]

end

theorem referrersPage_eq (typeClean : ∀ type ∈ artifactType, NulFree type) (last : Option String)
    (limit : Nat) :
    tables.referrersPage repo subject artifactType last limit =
      state.referrersPage repo subject artifactType last limit := by
  cases artifactType with
  | none => exact untypedPage_eq represents wellFormed repoClean subjectClean last limit
  | some type =>
    exact typedPage_eq represents wellFormed repoClean subjectClean (typeClean type rfl) last limit

end

/-! ### Listings -/

theorem tagsSnapshot_eq (repoClean : NulFree repo) :
    tables.tagsSnapshot repo = state.tagsSnapshot repo := by
  obtain ⟨shared, _, bound⟩ := @prefixSuccessor_keyOf [repo] (by simp)
  have range : tables.tags.range (keyOf [repo]) (shared ++ [1]) = _ :=
    range_tags represents repoClean bound none
  rw [State.tagsSnapshot_eq]
  simp only [Tables.tagsSnapshot, rangeOwned]
  rw [makePrefix, makeKey_one, bound]
  simp only [range, after, List.filter_true, List.filterMap_map]
  refine (List.filterMap_congr ?_).trans List.filterMap_some
  rintro ⟨tag, entry⟩ membership
  have clean := tag_clean represents membership
  simp [splitKey_keyOf, repoClean, clean.1, tagEntry, splitValue_tagValue clean.2]

theorem manifests_eq (repoClean : NulFree repo) : tables.manifests repo = state.manifests repo := by
  obtain ⟨shared, _, bound⟩ := @prefixSuccessor_keyOf [repo] (by simp)
  have range : tables.mediaTypes.range (keyOf [repo]) (shared ++ [1]) = _ :=
    represents.mediaTypes.range_startKey repoClean bound (state.repo repo).mediaTypes.toList
      Prod.fst (fun entry => utf8 entry.2) (StringMap.keys_ascending _)
      (by
        intro name bytes
        simp [State.contents, RepoState.contents, Std.ExtTreeMap.mem_toList_iff_getElem?_eq_some])
      none
  rw [State.manifests_eq, ← Std.ExtTreeMap.map_fst_toList_eq_keys]
  simp only [Tables.manifests, rangeOwned]
  rw [makePrefix, makeKey_one, bound]
  simp only [range, after, List.filter_true, List.filterMap_map]
  refine (List.filterMap_congr ?_).trans (congrFun List.filterMap_eq_map _)
  rintro ⟨digest, mediaType⟩ membership
  have found := Std.ExtTreeMap.mem_toList_iff_getElem?_eq_some.mp membership
  have clean := (represents.mediaTypes.clean repo digest (utf8 mediaType) (by
    simp [State.contents, RepoState.contents, found])).2
  simp [splitKey_keyOf, repoClean, clean]

omit represents in
theorem mem_addRepos_iff (repos : StringSet) (table : ByteMap Bytes) (name : String) :
    name ∈ Tables.addRepos repos table ↔ name ∈ repos ∨
      ∃ key value, table[key]? = some value ∧ (splitKey key).head?.bind fromUtf8 = some name := by
  have folded : ∀ (entries : List (Bytes × Bytes)) (repos : StringSet),
      name ∈ entries.foldl Tables.addRepo repos ↔
        name ∈ repos ∨ ∃ entry ∈ entries, (splitKey entry.1).head?.bind fromUtf8 = some name := by
    intro entries
    induction entries with
    | nil => simp
    | cons entry entries ih =>
      intro repos
      rw [List.foldl_cons, ih, Tables.addRepo]
      cases decoded : (splitKey entry.1).head?.bind fromUtf8 with
      | none => simp [decoded]
      | some repo =>
        simp only [StringSet.mem_insert_iff, List.mem_cons, exists_eq_or_imp, decoded,
          Option.some.injEq]
        grind
  rw [Tables.addRepos, folded]
  simp only [Prod.exists, Std.ExtTreeMap.mem_toList_iff_getElem?_eq_some]

omit represents in
theorem names_repo_iff {entry : List String → Option Bytes} (stored : Stored table entry)
    (name : String) :
    (∃ key value, table[key]? = some value ∧ (splitKey key).head?.bind fromUtf8 = some name) ↔
      ∃ rest value, (∀ part ∈ name :: rest, NulFree part) ∧ entry (name :: rest) = some value := by
  constructor
  · rintro ⟨key, value, present, named⟩
    obtain ⟨parts, clean, rfl⟩ := stored.keys key value present
    rw [stored.lookup parts clean] at present
    rw [splitKey_keyOf clean] at named
    rcases parts with _ | ⟨first, rest⟩
    · simp at named
    simp only [List.map_cons, List.head?_cons, Option.bind_some, fromUtf8_utf8,
      Option.some.injEq] at named
    subst named
    exact ⟨rest, value, clean, present⟩
  rintro ⟨rest, value, clean, present⟩
  refine ⟨keyOf (name :: rest), value, (stored.lookup _ clean).trans present, ?_⟩
  simp [splitKey_keyOf clean]

theorem repoNames_eq (wellFormed : ∀ name, (state.repo name).WellFormed reader) :
    tables.repoNames = state.repoNames := by
  refine ascending_ext (fun first second => String.lt_asymm) (StringSet.toList_ascending _)
    state.repoNames_sorted ?_
  intro name
  have notEmpty : ∀ {Value : Type} (map : StringMap Value),
      map.isEmpty = false ↔ ∃ (key : String) (value : Value), map[key]? = some value := by
    intro Value map
    rw [← Bool.not_eq_true, StringMap.isEmpty_iff_lookup]
    simp [Option.eq_none_iff_forall_ne_some]
  rw [Tables.repoNames, Std.ExtTreeSet.mem_toList, mem_addRepos_iff, mem_addRepos_iff,
    names_repo_iff represents.mediaTypes.stored, names_repo_iff represents.referrers.referrers,
    State.mem_repoNames_iff, notEmpty, notEmpty]
  have media : (∃ rest value, (∀ part ∈ name :: rest, NulFree part) ∧
      pairEntries (fun repo digest => ((state.contents repo).mediaType digest).map utf8)
        (name :: rest) = some value) ↔
      ∃ digest mediaType : String, (state.repo name).mediaTypes[digest]? = some mediaType := by
    constructor
    · rintro ⟨rest, value, clean, present⟩
      rcases rest with _ | ⟨digest, _ | ⟨second, rest⟩⟩
      · cases present
      · obtain ⟨mediaType, found, _⟩ := Option.map_eq_some_iff.mp present
        exact ⟨digest, mediaType, found⟩
      · cases present
    rintro ⟨digest, mediaType, found⟩
    have present : ((state.contents name).mediaType digest).map utf8 = some (utf8 mediaType) := by
      simp [State.contents, RepoState.contents, found]
    have clean := represents.mediaTypes.clean name digest _ present
    exact ⟨[digest], utf8 mediaType, by simp [clean], present⟩
  have referrers : (∃ rest value, (∀ part ∈ name :: rest, NulFree part) ∧
      referrerEntries (fun repo => (state.contents repo).referrer) (name :: rest) = some value) ↔
      ∃ (subject : String) (kept : SubjectReferrers),
        (state.repo name).referrers[subject]? = some kept := by
    constructor
    · rintro ⟨rest, value, clean, present⟩
      rcases rest with _ | ⟨subject, _ | ⟨digest, _ | ⟨third, rest⟩⟩⟩
      · cases present
      · cases present
      · obtain ⟨kept, found, _⟩ := Option.bind_eq_some_iff.mp present
        exact ⟨subject, kept, found⟩
      · cases present
    rintro ⟨subject, kept, found⟩
    have nonempty := (wellFormed name).referrersInhabited subject kept found
    obtain ⟨digest, entry, listed⟩ := (notEmpty _).mp nonempty
    have present : (state.contents name).referrer subject digest = some entry.2 := by
      simp [State.contents, RepoState.contents, found, listed]
    have clean := represents.referrers.clean name subject digest _ present
    exact ⟨[subject, digest], entry.2, by simp [clean], present⟩
  rw [media, referrers]
  simp

/-! ### The snapshot of referrers -/

omit represents in
theorem groupReferrers_eq (repoClean : NulFree repo) (items : List ((String × String) × Bytes))
    (clean : ∀ item ∈ items, NulFree item.1.1 ∧ NulFree item.1.2)
    (groups : StringMap (List Referrer)) :
    Tables.groupReferrers repo
        (items.map fun item => (keyOf [repo, item.1.1, item.1.2], item.2)) groups =
      items.foldl (fun groups item =>
        groups.upsert item.1.1 [] (· ++ [(item.1.2, item.2)])) groups := by
  induction items generalizing groups with
  | nil => rfl
  | cons item items ih =>
    rw [List.forall_mem_cons] at clean
    have parts : splitKey (keyOf [repo, item.1.1, item.1.2]) =
        [utf8 repo, utf8 item.1.1, utf8 item.1.2] :=
      splitKey_keyOf (by simp [repoClean, clean.1])
    rw [List.map_cons, List.foldl_cons, ← ih clean.2]
    simp only [Tables.groupReferrers, parts, if_true, fromUtf8Lossy_utf8]

/-- All referrers of a repository, by subject and digest. -/
def referrerItems : List ((String × String) × Bytes) :=
  repoState.referrers.toList.flatMap fun entry =>
    entry.2.byDigest.toList.map fun item => ((entry.1, item.1), item.2.2)

omit represents in
theorem mem_referrerItems_iff (subject digest : String) (descriptor : Bytes) :
    ((subject, digest), descriptor) ∈ referrerItems repoState ↔
      repoState.contents.referrer subject digest = some descriptor := by
  simp only [referrerItems, List.mem_flatMap, List.mem_map, Prod.exists, Prod.mk.injEq,
    Std.ExtTreeMap.mem_toList_iff_getElem?_eq_some, RepoState.referrer_eq_some_iff]
  grind

omit represents in
theorem referrerItems_ascending :
    (referrerItems repoState).Pairwise fun first second =>
      [first.1.1, first.1.2] < [second.1.1, second.1.2] := by
  rw [referrerItems, List.pairwise_flatMap]
  constructor
  · intro entry _
    rw [List.pairwise_map]
    exact (StringMap.keys_ascending _).imp fun less => by simp [List.cons_lt_cons_iff, less]
  refine (StringMap.keys_ascending _).imp ?_
  intro first second less
  simp only [List.mem_map]
  rintro _ ⟨_, _, rfl⟩ _ ⟨_, _, rfl⟩
  simp [List.cons_lt_cons_iff, less]

omit represents in
theorem foldl_referrerItems {repoState : RepoState} (wellFormed : repoState.WellFormed reader) :
    (referrerItems repoState).foldl (fun (groups : StringMap (List Referrer)) item =>
        groups.upsert item.1.1 [] (· ++ [(item.1.2, item.2)])) ∅ =
      repoState.referrers.map fun _ kept =>
        kept.byDigest.toList.map fun item => (item.1, item.2.2) := by
  have grouped : ∀ (groups : StringMap (List Referrer)),
      ∀ entry ∈ repoState.referrers.toList, groups[entry.1]? = none →
      (entry.2.byDigest.toList.map fun item => ((entry.1, item.1), item.2.2)).foldl
        (fun (groups : StringMap (List Referrer)) item =>
          groups.upsert item.1.1 [] (· ++ [(item.1.2, item.2)])) groups =
        groups.insert entry.1 (entry.2.byDigest.toList.map fun item => (item.1, item.2.2)) := by
    rintro groups ⟨subject, kept⟩ membership fresh
    have nonempty := wellFormed.referrersInhabited subject kept
      (Std.ExtTreeMap.mem_toList_iff_getElem?_eq_some.mp membership)
    rcases items : kept.byDigest.toList with _ | ⟨item, rest⟩
    · rw [Std.ExtTreeMap.toList_eq_nil_iff] at items
      simp [items] at nonempty
    have together := StringMap.foldl_upsert subject ([] : List Referrer)
      (fun listed (item : String × Option String × Bytes) => listed ++ [(item.1, item.2.2)])
      item rest groups
    have pushed : ∀ (rest : List (String × Option String × Bytes)) (before : List Referrer),
        rest.foldl (fun listed item => listed ++ [(item.1, item.2.2)]) before =
          before ++ rest.map fun item => (item.1, item.2.2) := by
      intro rest before
      rw [List.foldl_append_eq_append, ← List.flatMap_def, ← List.map_eq_flatMap]
    rw [fresh, Option.getD_none, pushed, List.nil_append] at together
    rw [List.foldl_map]
    exact together
  rw [referrerItems, List.foldl_flatMap]
  rw [StringMap.foldl_eq_foldl_insert _
    (fun entry => entry.2.byDigest.toList.map fun item => (item.1, item.2.2)) _ grouped
    (StringMap.nodup_keys_toList _) ∅ (by simp)]
  apply Std.ExtTreeMap.ext_getElem?
  intro subject
  rw [StringMap.lookup_foldl_insert_arranged (List.Perm.refl _)
    fun entry : String × SubjectReferrers =>
      entry.2.byDigest.toList.map fun item => (item.1, item.2.2)]
  simp

theorem referrersSnapshot_eq (wellFormed : (state.repo repo).WellFormed reader)
    (repoClean : NulFree repo) :
    tables.referrersSnapshot repo = state.referrersSnapshot repo := by
  obtain ⟨shared, _, bound⟩ := @prefixSuccessor_keyOf [repo] (by simp)
  have itemClean : ∀ item ∈ referrerItems (state.repo repo),
      NulFree item.1.1 ∧ NulFree item.1.2 := by
    rintro ⟨⟨subject, digest⟩, descriptor⟩ membership
    have present := (mem_referrerItems_iff _ subject digest descriptor).mp membership
    have clean := represents.referrers.clean repo subject digest descriptor present
    exact ⟨clean.2.1, clean.2.2.1⟩
  have range : tables.referrers.range (keyOf [repo]) (shared ++ [1]) =
      (referrerItems (state.repo repo)).map
        fun item => (keyOf [repo, item.1.1, item.1.2], item.2) := by
    refine represents.referrers.referrers.range_eq (by simpa using repoClean) bound (by simp)
      (fun item : (String × String) × Bytes => [item.1.1, item.1.2]) Prod.snd 2 (fun _ _ => rfl)
      (fun item membership => by simpa using itemClean item membership)
      (referrerItems_ascending _) ?_
    intro rest value
    rcases rest with _ | ⟨subject, _ | ⟨digest, _ | ⟨third, rest⟩⟩⟩
    · simp [referrerEntries]
    · simp [referrerEntries]
    · have item := mem_referrerItems_iff (state.repo repo) subject digest value
      simp [referrerEntries, State.contents, ← item]
    · simp [referrerEntries]
  rw [State.referrersSnapshot_eq]
  simp only [Tables.referrersSnapshot, rangeOwned]
  rw [makePrefix, makeKey_one, bound]
  simp only [range]
  rw [groupReferrers_eq repoClean _ itemClean, foldl_referrerItems wellFormed,
    Std.ExtTreeMap.toList_map]
  congr 1
  symm
  rw [List.filter_eq_self]
  rintro ⟨subject, kept⟩ membership
  have nonempty := wellFormed.referrersInhabited subject kept
    (Std.ExtTreeMap.mem_toList_iff_getElem?_eq_some.mp membership)
  simp [nonempty]

end

end Roci.Lmdb
