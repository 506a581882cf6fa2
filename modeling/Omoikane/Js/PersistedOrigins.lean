import Omoikane.Base.Numerals
import Omoikane.Base.Utf8
import Omoikane.Js.Opfs

/-!
# Origins with persistent storage

The storage manager writes the origins whose storage is persistent to a file of its
profile, each as its serialization, and reads them back when it starts.  An origin
that is not read back loses its grant without an error, so the URL parser has to
read every serialization as the origin it came from.

The `url` crate and `serde_json` are parameters.  Of the crate `UrlStandard` has
what the URL standard says of hosts and of URLs that are an origin alone.
-/

namespace Omoikane.Js

open Base Http

/-! ## Files -/

/-- What is on the disk at a path and at the temporary path beside it. -/
structure ProfileFile where
  saved : Option Bytes
  temporary : Option Bytes

/-- `serde_json` on lists of strings. -/
structure SerdeJson where
  toVecPretty : List Text → Bytes
  fromSlice : Bytes → Option (List Text)
  /-- What is written is read again. -/
  fromSlice_toVecPretty : ∀ values, fromSlice (toVecPretty values) = some values

/-- Why a file is not read. -/
inductive LoadError where
  | io
  | invalidData
deriving DecidableEq, Repr

section

variable (crate : UrlCrate) (serde : SerdeJson)

/-- `load_persisted_origins`; the read may go wrong. -/
def loadPersistedOrigins (readFails : Bool) (file : ProfileFile) :
    Except LoadError (List StorageOrigin) :=
  if readFails then .error .io
  else
    match file.saved with
    | none => .ok []
    | some encoded =>
      match serde.fromSlice encoded with
      | none => .error .invalidData
      | some values => .ok (values.filterMap (StorageOrigin.fromUrl crate)).eraseDups

/-- `save_persisted_origins`. -/
def savePersistedOrigins (faults : SaveFaults) (file : ProfileFile)
    (origins : List StorageOrigin) : Bool × ProfileFile :=
  if faults.createDirAll then (false, file)
  else
    let values := (origins.map StorageOrigin.serialize).mergeSort fun a b => decide (a ≤ b)
    if faults.toVec then (false, file)
    else
      let encoded := serde.toVecPretty values
      match faults.write with
      | some partly => (false, { file with temporary := some partly })
      | none =>
        if faults.rename then (false, { file with temporary := some encoded })
        else (true, { saved := some encoded, temporary := none })

end

/-! ## The URL standard -/

/-- The text of a host: not empty, without a delimiter of URLs, and with a colon in
brackets only. -/
structure IsHostText (host : Text) : Prop where
  ne_nil : host ≠ []
  undelimited : ∀ c ∈ host, c ∉ ['/', '\\', '?', '#', '@']
  bracketed : ':' ∈ host → host.head? = some '[' ∧ host.getLast? = some ']'

/-- What the URL standard says of the crate. -/
structure UrlStandard (crate : UrlCrate) where
  /-- `Host::parse`. -/
  parseHost : Text → Option StandardHost
  /-- A host is parsed again from its serialization. -/
  parseHost_text : ∀ url host, crate.host url = some host → parseHost host.text = some host
  host_text : ∀ url host, crate.host url = some host → IsHostText host.text
  /-- A host is serialized in lower case. -/
  host_lowercase : ∀ url host, crate.host url = some host → ∀ c ∈ host.text, c.toLower = c
  /-- A host and a port, in digits, are the authority of a URL. -/
  parse_authority : ∀ (scheme hostText portText : Text) (host : StandardHost) (port : UInt16),
    scheme = "http".toList ∨ scheme = "https".toList → IsHostText hostText →
      parseHost hostText = some host → Text.parseDigits portText = some port.toNat →
        ∃ url, crate.parse (scheme ++ "://".toList ++ hostText ++ ":".toList ++ portText) = .ok url ∧
          crate.scheme url = scheme ∧ crate.host url = some host ∧
            crate.portOrKnownDefault url = some port

namespace StorageOrigin

variable {crate : UrlCrate} {url : Text} {origin : StorageOrigin}

/-- An origin comes from a URL of the crate. -/
theorem exists_of_fromUrl (h : fromUrl crate url = some origin) :
    ∃ parsed host port, crate.host parsed = some host ∧
      (crate.scheme parsed = "http".toList ∨ crate.scheme parsed = "https".toList) ∧
      crate.portOrKnownDefault parsed = some port ∧
      origin = ⟨Text.toAsciiLowercase (crate.scheme parsed), Text.toAsciiLowercase host.text,
        port.toNat⟩ := by
  have hstandard : ∀ {parsed : crate.StandardUrl} {url : Url},
      Url.fromStandard crate parsed = .ok url → ∃ host, crate.host parsed = some host ∧
        (crate.scheme parsed = "http".toList ∨ crate.scheme parsed = "https".toList) ∧
        crate.portOrKnownDefault parsed = some url.port ∧ url.scheme = crate.scheme parsed ∧
        url.host = host.text := by
    intro parsed url hurl
    unfold Url.fromStandard at hurl
    split at hurl
    next hscheme =>
      split at hurl
      next => cases hurl
      next host hhost =>
        split at hurl
        next => cases hurl
        next port hport =>
          cases hurl
          exact ⟨host, hhost, hscheme, hport, rfl, rfl⟩
    next => cases hurl
  unfold fromUrl at h
  split at h
  next => cases h
  next parsed hparsed =>
    cases h
    unfold Url.fromStr at hparsed
    dsimp only at hparsed
    split at hparsed
    next => cases hparsed
    next =>
      split at hparsed
      next => cases hparsed
      next =>
        split at hparsed
        next => cases hparsed
        next =>
          split at hparsed
          next => cases hparsed
          next standard hstandardUrl =>
            obtain ⟨host, hhost, hscheme, hport, hsame, htext⟩ := hstandard hparsed
            exact ⟨standard, host, parsed.port, hhost, hscheme, hport, by rw [hsame, htext]⟩

/-! ## Reading a serialization -/

theorem not_le_space {c : Char} (h : isVisibleAscii c = true) :
    decide (c ≤ ' ') = false ∧ (!(c == '\t' || c == '\r' || c == '\n')) = true := by
  have hlow : '!' ≤ c := of_decide_eq_true (Bool.and_eq_true_iff.mp h).1
  have hnot : ∀ d : Char, d < '!' → c ≠ d := fun d hd heq => Char.not_lt.mpr hlow (heq ▸ hd)
  refine ⟨decide_eq_false fun hle => Char.not_lt.mpr (Char.le_trans hlow hle) (by decide), ?_⟩
  simp [hnot '\t' (by decide), hnot '\r' (by decide), hnot '\n' (by decide)]

/-- The parser takes nothing away from a text in visible characters. -/
theorem input_of_visible {s : Text} (h : ∀ c ∈ s, isVisibleAscii c = true) :
    (Text.trimMatches (fun c => decide (c ≤ ' ')) s).filter
      (fun c => !(c == '\t' || c == '\r' || c == '\n')) = s := by
  have hspace : ∀ c ∈ s, decide (c ≤ ' ') = false := fun c hc => (not_le_space (h c hc)).1
  have hdrop : s.dropWhile (fun c => decide (c ≤ ' ')) = s := by
    cases s with
    | nil => rfl
    | cons c s => exact List.dropWhile_cons_of_neg (by rw [hspace c List.mem_cons_self]; nofun)
  rw [Text.trimMatches, hdrop, Text.trimEndMatches_of_forall hspace]
  exact List.filter_eq_self.mpr fun c hc => (not_le_space (h c hc)).2

theorem isVisibleAscii_of_isDigit {c : Char} (h : c.isDigit = true) : isVisibleAscii c = true := by
  simp only [Char.isDigit, Bool.and_eq_true, decide_eq_true_eq] at h
  rw [isVisibleAscii, Bool.and_eq_true, decide_eq_true_iff, decide_eq_true_iff]
  exact ⟨Char.le_trans (by decide) h.1, Char.le_trans h.2 (by decide)⟩

theorem serialize_visible (hscheme : ∀ c ∈ origin.scheme, isVisibleAscii c = true)
    (hhost : ∀ c ∈ origin.host, isVisibleAscii c = true) :
    ∀ c ∈ origin.serialize, isVisibleAscii c = true := by
  intro c hc
  simp only [serialize, List.mem_append, List.mem_cons, List.not_mem_nil, or_false] at hc
  rcases hc with (((hc | rfl | rfl | rfl) | hc) | rfl) | hc
  · exact hscheme c hc
  · decide
  · decide
  · decide
  · exact hhost c hc
  · decide
  · exact isVisibleAscii_of_isDigit ((Text.isNumeral_ofNat origin.port).isDigit c hc)

/-- Where the parser comes to the crate. -/
theorem fromStr_eq {scheme rest : Text} {parsed : crate.StandardUrl}
    (hscheme : scheme = "http".toList ∨ scheme = "https".toList)
    (hvisible : ∀ c ∈ scheme ++ "://".toList ++ rest, isVisibleAscii c = true)
    (hrest : ¬ (rest = [] ∨ rest.head? = some '/'))
    (hparse : crate.parse (scheme ++ "://".toList ++ rest) = .ok parsed) :
    Url.fromStr crate (scheme ++ "://".toList ++ rest) = Url.fromStandard crate parsed := by
  have hseparator : Url.fromStr.schemeSeparator (scheme ++ "://".toList ++ rest) =
      some (scheme, rest) := by
    rcases hscheme with rfl | rfl <;> rfl
  have hlower : ¬ (Text.toAsciiLowercase scheme ≠ "http".toList ∧
      Text.toAsciiLowercase scheme ≠ "https".toList) := by
    rcases hscheme with rfl | rfl <;> decide
  unfold Url.fromStr
  dsimp only
  rw [input_of_visible hvisible, hseparator]
  dsimp only
  rw [if_neg hlower, if_neg hrest, hparse]

theorem fromStandard_eq {parsed : crate.StandardUrl} {host : StandardHost} {port : UInt16}
    (hscheme : crate.scheme parsed = "http".toList ∨ crate.scheme parsed = "https".toList)
    (hhost : crate.host parsed = some host) (hport : crate.portOrKnownDefault parsed = some port) :
    ∃ url, Url.fromStandard crate parsed = .ok url ∧ url.scheme = crate.scheme parsed ∧
      url.host = host.text ∧ url.port = port := by
  unfold Url.fromStandard
  rw [dif_pos hscheme]
  split
  next hnone =>
    rw [hhost] at hnone
    cases hnone
  next other hother =>
    obtain rfl : host = other := Option.some.inj (hhost.symm.trans hother)
    rw [hport]
    exact ⟨_, rfl, rfl, rfl, rfl⟩

/-- An origin is read from its serialization. -/
theorem fromUrl_serialize (standard : UrlStandard crate) (h : fromUrl crate url = some origin) :
    fromUrl crate origin.serialize = some origin := by
  obtain ⟨parsed, host, port, hhost, hscheme, -, rfl⟩ := exists_of_fromUrl h
  have hschemeLower : Text.toAsciiLowercase (crate.scheme parsed) = crate.scheme parsed := by
    rcases hscheme with heq | heq <;> rw [heq] <;> decide
  have hschemeVisible : ∀ c ∈ crate.scheme parsed, isVisibleAscii c = true := by
    rcases hscheme with heq | heq <;> rw [heq] <;> exact List.forall_iff_forall_mem.mp (by decide)
  have hhostLower : Text.toAsciiLowercase host.text = host.text :=
    (List.map_congr_left (standard.host_lowercase parsed host hhost)).trans (List.map_id _)
  have htext := standard.host_text parsed host hhost
  obtain ⟨again, hparse, hsame, hhostAgain, hportAgain⟩ := standard.parse_authority _ _ _ host port
    hscheme htext (standard.parseHost_text parsed host hhost)
    (Text.parseDigits_eq_some.mpr (Text.isNumeral_ofNat port.toNat))
  have hserialize : serialize ⟨crate.scheme parsed, host.text, port.toNat⟩ =
      crate.scheme parsed ++ "://".toList ++
        (host.text ++ ":".toList ++ Text.ofNat port.toNat) := by
    simp only [serialize, List.append_assoc]
    rfl
  have hvisible : ∀ c ∈ serialize ⟨crate.scheme parsed, host.text, port.toNat⟩,
      isVisibleAscii c = true :=
    serialize_visible hschemeVisible (List.all_eq_true.mp (crate.host_visible parsed host hhost))
  have hrest : ¬ (host.text ++ ":".toList ++ Text.ofNat port.toNat = [] ∨
      (host.text ++ ":".toList ++ Text.ofNat port.toNat).head? = some '/') := by
    obtain ⟨c, tail, hcons⟩ := List.exists_cons_of_ne_nil htext.ne_nil
    rw [hcons]
    rintro (hnil | hslash)
    · cases hnil
    · obtain rfl := Option.some.inj hslash
      exact htext.undelimited '/' (by rw [hcons]; exact List.mem_cons_self) (by decide)
  rw [← hsame] at hscheme
  obtain ⟨url', hurl, hurlScheme, hurlHost, hurlPort⟩ :=
    fromStandard_eq hscheme hhostAgain hportAgain
  rw [hschemeLower, hhostLower]
  rw [hserialize] at hvisible ⊢
  rw [fromUrl, fromStr_eq (hsame ▸ hscheme) hvisible hrest, hurl]
  dsimp only
  rw [hurlScheme, hurlHost, hurlPort, hsame, hschemeLower, hhostLower]
  · simpa only [List.append_assoc] using hparse

/-- No two origins are stored under one key. -/
theorem serialize_inj (standard : UrlStandard crate) {url' : Text} {origin' : StorageOrigin}
    (h : fromUrl crate url = some origin) (h' : fromUrl crate url' = some origin')
    (heq : origin.serialize = origin'.serialize) : origin = origin' := by
  have hread := fromUrl_serialize standard h
  rw [heq, fromUrl_serialize standard h'] at hread
  exact (Option.some.inj hread).symm

end StorageOrigin

/-! ## Saving and loading -/

theorem mem_filterMap_serialize {crate : UrlCrate} (standard : UrlStandard crate)
    {origins : List StorageOrigin} {values : List Text}
    (horigins : ∀ origin ∈ origins, ∃ url, StorageOrigin.fromUrl crate url = some origin)
    (hvalues : values.Perm (origins.map StorageOrigin.serialize)) (origin : StorageOrigin) :
    origin ∈ values.filterMap (StorageOrigin.fromUrl crate) ↔ origin ∈ origins := by
  rw [List.mem_filterMap]
  constructor
  · rintro ⟨value, hvalue, hread⟩
    obtain ⟨saved, hsaved, rfl⟩ := List.mem_map.mp (hvalues.subset hvalue)
    obtain ⟨url, hurl⟩ := horigins saved hsaved
    rw [StorageOrigin.fromUrl_serialize standard hurl] at hread
    exact Option.some.inj hread ▸ hsaved
  · intro horigin
    obtain ⟨url, hurl⟩ := horigins origin horigin
    exact ⟨origin.serialize, hvalues.symm.subset (List.mem_map_of_mem horigin),
      StorageOrigin.fromUrl_serialize standard hurl⟩

/-- The set that was saved is loaded. -/
theorem load_savePersistedOrigins {crate : UrlCrate} (standard : UrlStandard crate)
    (serde : SerdeJson) {faults : SaveFaults} {file : ProfileFile} {origins : List StorageOrigin}
    (horigins : ∀ origin ∈ origins, ∃ url, StorageOrigin.fromUrl crate url = some origin)
    (hsaved : (savePersistedOrigins serde faults file origins).1 = true) :
    ∃ loaded, loadPersistedOrigins crate serde false
        (savePersistedOrigins serde faults file origins).2 = .ok loaded ∧
      ∀ origin, origin ∈ loaded ↔ origin ∈ origins := by
  have hfile : (savePersistedOrigins serde faults file origins).2.saved =
      some (serde.toVecPretty ((origins.map StorageOrigin.serialize).mergeSort
        fun a b => decide (a ≤ b))) := by
    unfold savePersistedOrigins at hsaved ⊢
    split at hsaved
    next => cases hsaved
    next hcreate =>
      dsimp only at hsaved ⊢
      rw [if_neg hcreate]
      split at hsaved
      next => cases hsaved
      next htoVec =>
        rw [if_neg htoVec]
        split at hsaved
        next => cases hsaved
        next =>
          split at hsaved
          next => cases hsaved
          next hrename => rw [if_neg hrename]
  refine ⟨_, by
    rw [loadPersistedOrigins, if_neg Bool.false_ne_true, hfile]
    dsimp only
    rw [serde.fromSlice_toVecPretty], fun origin => ?_⟩
  rw [List.mem_eraseDups]
  exact mem_filterMap_serialize standard horigins (List.mergeSort_perm ..) origin

/-- Origins are read from their serializations, no two have one serialization, and the
set that was saved is loaded. -/
theorem persisted_origins_kept {crate : UrlCrate} (standard : UrlStandard crate)
    (serde : SerdeJson) :
    (∀ url origin, StorageOrigin.fromUrl crate url = some origin →
        StorageOrigin.fromUrl crate origin.serialize = some origin) ∧
      (∀ url url' origin origin', StorageOrigin.fromUrl crate url = some origin →
        StorageOrigin.fromUrl crate url' = some origin' →
          origin.serialize = origin'.serialize → origin = origin') ∧
      ∀ faults file origins,
        (∀ origin ∈ origins, ∃ url, StorageOrigin.fromUrl crate url = some origin) →
          (savePersistedOrigins serde faults file origins).1 = true →
            ∃ loaded, loadPersistedOrigins crate serde false
                (savePersistedOrigins serde faults file origins).2 = .ok loaded ∧
              ∀ origin, origin ∈ loaded ↔ origin ∈ origins :=
  ⟨fun _ _ h => StorageOrigin.fromUrl_serialize standard h,
    fun _ _ _ _ h h' => StorageOrigin.serialize_inj standard h h',
    fun _ _ _ horigins hsaved => load_savePersistedOrigins standard serde horigins hsaved⟩

/-- The end of a URL of the host `b`: a port, or the root without one. -/
def oneHostPort (scheme : Text) (known : UInt16) : Text → Except StandardParseError (Text × UInt16)
  | ':' :: digits =>
    match (Text.parseDigits digits).filter (· < 2 ^ 16) with
    | some port => .ok (scheme, UInt16.ofNat port)
    | none => .error .invalidPort
  | ['/'] => .ok (scheme, known)
  | _ => .error .other

/-- A crate that parses the root of the host `b`. -/
def oneHost : UrlCrate where
  StandardUrl := Text × UInt16
  parse
    | 'h' :: 't' :: 't' :: 'p' :: ':' :: '/' :: '/' :: 'b' :: rest =>
      oneHostPort "http".toList 80 rest
    | 'h' :: 't' :: 't' :: 'p' :: 's' :: ':' :: '/' :: '/' :: 'b' :: rest =>
      oneHostPort "https".toList 443 rest
    | _ => .error .other
  join := fun _ _ => .error .other
  scheme := Prod.fst
  host := fun _ => some (.domain ['b'])
  portOrKnownDefault := fun url => some url.2
  path := fun _ => ['/']
  query := fun _ => none
  withoutCredentials := id
  originAscii := fun _ => []
  sameOrigin := fun a b => decide (a = b)
  asStr := fun _ => []
  host_visible := by
    rintro _ host ⟨⟩
    decide

/-- The crate does what the standard says of its host. -/
def oneHostStandard : UrlStandard oneHost where
  parseHost text := if text = ['b'] then some (.domain ['b']) else none
  parseHost_text := by
    rintro _ host ⟨⟩
    rfl
  host_text := by
    rintro _ host ⟨⟩
    exact { ne_nil := nofun, undelimited := List.forall_iff_forall_mem.mp (by decide), bracketed := by decide }
  host_lowercase := by
    rintro _ host ⟨⟩
    exact List.forall_iff_forall_mem.mp (by decide)
  parse_authority := by
    intro scheme hostText portText host port hscheme _ hhost hport
    split at hhost
    next heq =>
      subst heq
      have hfits : (Text.parseDigits portText).filter (· < 2 ^ 16) = some port.toNat := by
        rw [hport]
        exact if_pos (decide_eq_true port.toNat_lt)
      rcases hscheme with rfl | rfl
      · refine ⟨("http".toList, port), ?_, rfl, hhost, rfl⟩
        show oneHostPort _ 80 (':' :: portText) = _
        rw [oneHostPort, hfits]
        dsimp only
        rw [UInt16.ofNat_toNat]
        rfl
      · refine ⟨("https".toList, port), ?_, rfl, hhost, rfl⟩
        show oneHostPort _ 443 (':' :: portText) = _
        rw [oneHostPort, hfits]
        dsimp only
        rw [UInt16.ofNat_toNat]
        rfl
    next => cases hhost

/-- The origin of the host, and how a list of it alone is written. -/
def oneOrigin : StorageOrigin := ⟨"https".toList, ['b'], 443⟩

def oneOriginJson : Bytes := Utf8.encode "[\n  \"https://b:443\"\n]".toList

/-- A list of strings as as many zeros as its code says. -/
def zeros (values : List Text) : Bytes :=
  List.replicate (Encodable.encode (values.map fun value => value.map Char.toNat)) 0

/-- A library that writes that list as JSON, and every other as zeros. -/
def oneOriginSerde : SerdeJson where
  toVecPretty values := if values = [oneOrigin.serialize] then oneOriginJson else zeros values
  fromSlice bytes :=
    if bytes = oneOriginJson then some [oneOrigin.serialize]
    else
      (Encodable.decode bytes.length : Option (List (List Nat))).map fun values =>
        values.map fun value => value.map Char.ofNat
  fromSlice_toVecPretty values := by
    have hzeros : zeros values ≠ oneOriginJson := fun heq =>
      absurd (List.eq_of_mem_replicate (heq ▸ (by decide : (91 : UInt8) ∈ oneOriginJson))) (by decide)
    split
    next heq => rw [if_pos rfl, heq]
    next =>
      rw [zeros, List.length_replicate, Encodable.encodek, Option.map_some,
        List.map_map]
      refine congrArg some ((List.map_congr_left fun value _ => ?_).trans (List.map_id _))
      show (value.map Char.toNat).map Char.ofNat = value
      rw [List.map_map]
      exact (List.map_congr_left fun c _ => Char.ofNat_toNat c).trans (List.map_id _)

theorem persisted_origins_kept_oneHost :
    StorageOrigin.fromUrl oneHost "https://b/".toList = some oneOrigin ∧
      StorageOrigin.fromUrl oneHost oneOrigin.serialize = some oneOrigin ∧
      ∃ loaded, loadPersistedOrigins oneHost oneOriginSerde false
          (savePersistedOrigins oneOriginSerde .none ⟨none, none⟩ [oneOrigin]).2 = .ok loaded ∧
        ∀ origin, origin ∈ loaded ↔ origin ∈ [oneOrigin] := by
  have hread : StorageOrigin.fromUrl oneHost "https://b/".toList = some oneOrigin := by decide
  obtain ⟨hserialize, -, hload⟩ := persisted_origins_kept oneHostStandard oneOriginSerde
  refine ⟨hread, hserialize _ _ hread, hload .none ⟨none, none⟩ [oneOrigin] ?_ rfl⟩
  exact fun origin horigin => ⟨_, List.mem_singleton.mp horigin ▸ hread⟩

end Omoikane.Js
