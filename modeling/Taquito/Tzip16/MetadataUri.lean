import Taquito.Host.Sha256
import Taquito.Js.Uri
import Taquito.Lib.Regex
import Taquito.MichelsonEncoder.TopLevelPairs
import Taquito.Utils.Hex

/-!
# URIs of contract metadata

`MetadataProvider` takes a URI apart with a regular expression and hands its location to the handler
of its protocol; the handler of `tezos-storage` takes the location apart with another one, and reads
a key of the metadata big map of a contract.
-/

open Js Regex

namespace Tzip16

/-! ## The code -/

/-- What fetching metadata throws; `request` stands for the errors of the network. -/
inductive MetadataError where
  | InvalidUri (uri : JSString)
  | ProtocolNotSupported (protocol : JSString)
  | InvalidMetadata (invalidMetadata : JSString)
  | InvalidMetadataType
  | BigMapMetadataNotFound
  | MetadataNotFound (info : JSString)
  | URIError
  | search (e : TopLevelPairs.SearchError)
  | utils (e : Utils.UtilsError)
  | request

/-- The interface `Tzip16Uri`. -/
structure Tzip16Uri where
  sha256hash : Option JSString
  protocol : JSString
  location : JSString

/-- The storage of a contract, and its type as `Schema.fromRPCResponse` finds it. -/
structure Script where
  storageType : Expr
  storage : Expr

/-- What the handlers ask for; `none` is a rejected request. -/
structure Network where
  getScript : JSString → Option Script
  getBigMapKeyByID : JSString → JSString → Option (Option JSString)
  createRequest : JSString → Option JSString

/-- The answer of the network. -/
def answer {α : Type} : Option α → Except MetadataError α
  | some a => .ok a
  | none => .error .request

/-- `.`, any character but a line terminator. -/
def dot (c : UInt16) : Bool := !([0x0A, 0x0D, 0x2028, 0x2029].contains c)

/-- The part `(?:sha256:\/\/0x(.*)\/)?` of `PROTOCOL_REGEX`, without the `?`. -/
def hashPart : Regex UInt16 :=
  seq (word (js "sha256://0x")) (seq (group 1 (many dot)) (word (js "/")))

/-- The part `(https?|ipfs|tezos-storage):`. -/
def protocolPart : Regex UInt16 :=
  seq (group 2 (alt (seq (word (js "http")) (opt (word (js "s"))))
    (alt (word (js "ipfs")) (word (js "tezos-storage"))))) (word (js ":"))

/-- `PROTOCOL_REGEX`. -/
def PROTOCOL_REGEX : Regex UInt16 :=
  seq (opt hashPart) (seq protocolPart (group 3 (many dot)))

/-- What the groups of `PROTOCOL_REGEX` hold. -/
def uriOfMatch (m : Match UInt16) : Tzip16Uri where
  sha256hash := m.get 1
  protocol := (m.get 2).getD []
  location := (m.get 3).getD []

/-- `extractProtocolInfo`. -/
def extractProtocolInfo (_uri : JSString) : Option Tzip16Uri :=
  (search PROTOCOL_REGEX _uri).map uriOfMatch

/-- The part `(?:\/\/(KT1\w{33})(?:\.(.+))?\/)?` of `TEZOS_STORAGE_REGEX`, without the `?`. -/
def contractPart : Regex UInt16 :=
  seq (word (js "//")) (seq (group 1 (seq (word (js "KT1")) (times isWordChar 33)))
    (seq (opt (seq (word (js ".")) (group 2 (plus dot)))) (word (js "/"))))

/-- The characters `[\w|%]`. -/
def isPathChar (c : UInt16) : Bool := isWordChar c || c == 124 || c == 37

/-- `TEZOS_STORAGE_REGEX`, which is matched at the start of a text only. -/
def TEZOS_STORAGE_REGEX : Regex UInt16 :=
  seq (opt contractPart) (seq (group 3 (plus isPathChar)) finish)

/-- What `parseTezosStorageUri` gives. -/
structure TezosStorageUri where
  contractAddress : Option JSString
  network : Option JSString
  path : JSString

/-- `parseTezosStorageUri`. -/
def parseTezosStorageUri (tezosStorageURI : JSString) :
    Except MetadataError (Option TezosStorageUri) :=
  match first TEZOS_STORAGE_REGEX tezosStorageURI with
  | none => .ok none
  | some m =>
    match decodeURIComponent ((m.get 3).getD []) with
    | none => .error .URIError
    | some path => .ok (some ⟨m.get 1, m.get 2, path⟩)

/-- `typeOfValueToFind`. -/
def typeOfValueToFind : Expr :=
  .prim "big_map" (some [.prim "string" none none, .prim "bytes" none none])
    (some [js "%metadata"])

/-- What `getMetadata` of `TezosStorageHandler` does once it knows the contract and the key. -/
def readMetadata (network : Network) (address path : JSString) : Except MetadataError JSString := do
  let script ← answer (network.getScript address)
  let bigMapId ← (TopLevelPairs.FindFirstInTopLevelPair script.storageType script.storage
    typeOfValueToFind).mapError .search
  match bigMapId with
  | some (.int (d :: ds)) =>
    match ← answer (network.getBigMapKeyByID (d :: ds) path) with
    | some (b :: bs) =>
      if (b :: bs).all isHexDigit then (Utils.bytes2Char (b :: bs)).mapError .utils
      else .error .InvalidMetadataType
    | _ => .error (.MetadataNotFound (js "No '" ++ path ++
        js "' key found in the big map %metadata of the contract " ++ address))
  | _ => .error .BigMapMetadataNotFound

/-- A handler is given the address of the contract and the URI. -/
abbrev Handler := Network → JSString → Tzip16Uri → Except MetadataError JSString

/-- `getMetadata` of `TezosStorageHandler`. -/
def TezosStorageHandler : Handler := fun network address uri => do
  match ← parseTezosStorageUri uri.location with
  | none => .error (.InvalidUri (js "tezos-storage:" ++ uri.location))
  | some parsed => readMetadata network (parsed.contractAddress.getD address) parsed.path

/-- `getMetadata` of `HttpHandler`. -/
def HttpHandler : Handler := fun network _ uri =>
  match decodeURIComponent uri.location with
  | none => .error .URIError
  | some location => answer (network.createRequest (uri.protocol ++ js ":" ++ location))

/-- `getMetadata` of `IpfsHttpHandler`. -/
def IpfsHttpHandler : Handler := fun network _ uri =>
  answer (network.createRequest (js "https://ipfs.io/ipfs/" ++ uri.location.drop 2 ++ js "/"))

/-- `DEFAULT_HANDLERS`. -/
def DEFAULT_HANDLERS : List (JSString × Handler) :=
  [(js "http", HttpHandler), (js "https", HttpHandler), (js "tezos-storage", TezosStorageHandler),
    (js "ipfs", IpfsHttpHandler)]

/-- The interface `MetadataEnvelope`. -/
structure MetadataEnvelope (J : Type) where
  uri : JSString
  integrityCheckResult : Option Bool
  sha256Hash : Option JSString
  metadata : J

/-- `calculateSHA256Hash`. -/
def calculateSHA256Hash (preimage : JSString) : JSString :=
  toHex (Sha256.hash (utf8Encode preimage))

section

variable {J : Type} (parseJSON : JSString → Option J)

/-- What `provideMetadata` makes of the metadata. -/
def envelope (uri : JSString) (sha256hash : Option JSString) (metadata : JSString) :
    Except MetadataError (MetadataEnvelope J) :=
  match parseJSON metadata with
  | none => .error (.InvalidMetadata metadata)
  | some metadataJSON =>
    let sha256Hash := calculateSHA256Hash metadata
    let hash := sha256hash.filter fun hash => !hash.isEmpty
    .ok ⟨uri, hash.map fun hash => hash == sha256Hash, hash.map fun _ => sha256Hash, metadataJSON⟩

/-- `provideMetadata`, for the contract of an address. -/
def provideMetadata (handlers : List (JSString × Handler)) (network : Network)
    (address uri : JSString) : Except MetadataError (MetadataEnvelope J) :=
  match extractProtocolInfo uri with
  | none => .error (.InvalidUri uri)
  | some uriInfo =>
    if uriInfo.location.isEmpty then .error (.InvalidUri uri) else
      match handlers.lookup uriInfo.protocol with
      | none => .error (.ProtocolNotSupported uriInfo.protocol)
      | some handler => do
        let metadata ← handler network address uriInfo
        envelope parseJSON uri uriInfo.sha256hash metadata

end

/-! ## What the protocol expression matches -/

/-- The names of protocols. -/
def protocols : List JSString := [js "http", js "https", js "ipfs", js "tezos-storage"]

/-- The text starts with the name of a protocol and a colon. -/
def Named (t : JSString) : Prop := ∃ p ∈ protocols, ∃ l, t = p ++ js ":" ++ l

/-- On the first line of the text, a slash comes before the name of a protocol and a colon. -/
def NamedBehindSlash (t : JSString) : Prop :=
  ∃ x u, t = x ++ js "/" ++ u ∧ (∀ c ∈ x, dot c) ∧ Named u

/-- The text has a match at its start, without a hash or with one. -/
def Matched (t : JSString) : Prop :=
  Named t ∨ ∃ r, t = js "sha256://0x" ++ r ∧ NamedBehindSlash r

/-- What the expression reads at the start of a text. A hash goes as far as it can. -/
inductive ReadsAt : JSString → Tzip16Uri → Prop where
  | named {p l : JSString} (hp : p ∈ protocols) :
    ReadsAt (p ++ js ":" ++ l) ⟨none, p, l.takeWhile dot⟩
  | hashed {h p l : JSString} (hh : ∀ c ∈ h, dot c) (hp : p ∈ protocols)
    (hlast : ¬NamedBehindSlash (p ++ js ":" ++ l)) :
    ReadsAt (js "sha256://0x" ++ h ++ js "/" ++ (p ++ js ":" ++ l)) ⟨some h, p, l.takeWhile dot⟩

/-- The names have no colon in them. -/
theorem protocol_colon {p : JSString} (hp : p ∈ protocols) : (58 : UInt16) ∉ p := by
  have key : protocols.all (fun p => !p.contains 58) = true := by decide
  simpa using List.all_eq_true.mp key p hp

theorem protocol_inj {p q l m : JSString} (hp : p ∈ protocols) (hq : q ∈ protocols)
    (h : p ++ js ":" ++ l = q ++ js ":" ++ m) : p = q ∧ l = m := by
  have htake : ∀ {a b : JSString}, (58 : UInt16) ∉ a →
      (a ++ js ":" ++ b).takeWhile (· != 58) = a := by
    intro a b ha
    rw [List.append_assoc, List.takeWhile_append_of_pos]
    · exact List.append_nil a
    · intro c hc
      rw [bne_iff_ne]
      rintro rfl
      exact ha hc
  have hpq : p = q := by
    rw [← htake (b := l) (protocol_colon hp), h, htake (protocol_colon hq)]
  subst hpq
  exact ⟨rfl, List.append_cancel_left h⟩

/-- No name starts like a hash. -/
theorem not_hash_of_named {p l : JSString} (hp : p ∈ protocols) :
    ¬ js "sha256://0x" <+: p ++ js ":" ++ l := by
  rintro ⟨t, ht⟩
  have key : protocols.all (fun p => (p.head?.any fun c => c != 115)) = true := by decide
  have hhead := List.all_eq_true.mp key p hp
  have hs : (p ++ js ":" ++ l).head? = some 115 := by
    rw [← ht]
    rfl
  cases p with
  | nil => exact Bool.false_ne_true hhead
  | cons c p =>
    rw [List.append_assoc, List.cons_append, List.head?_cons, Option.some.injEq] at hs
    rw [hs] at hhead
    exact Bool.false_ne_true hhead

theorem mem_results_protocolPart {s : JSString} {m : Match UInt16} :
    m ∈ results protocolPart s ↔
      ∃ p ∈ protocols, s = p ++ js ":" ++ m.rest ∧ m = ⟨[(2, p)], p ++ js ":", m.rest⟩ := by
  have hname : ∀ {s : JSString} {m : Match UInt16}, m ∈ results (alt
      (seq (word (js "http")) (opt (word (js "s"))))
      (alt (word (js "ipfs")) (word (js "tezos-storage")))) s ↔
      ∃ p ∈ protocols, s = p ++ m.rest ∧ m = ⟨[], p, m.rest⟩ := by
    intro s m
    simp only [mem_results_alt, mem_results_seq, mem_results_opt, mem_results_word, protocols,
      List.mem_cons, List.not_mem_nil, or_false, exists_eq_or_imp, exists_eq_left]
    constructor
    · rintro (⟨a, ⟨hs, ha⟩, b, ⟨hrest, hb⟩ | hb, rfl⟩ | h | h)
      · rw [ha] at hrest
        refine Or.inr (Or.inl ⟨?_, ?_⟩)
        · rw [hs, hrest]
          rfl
        · rw [ha, hb]
          rfl
      · refine Or.inl ⟨?_, ?_⟩
        · rw [hs, hb]
          rfl
        · rw [ha, hb]
          rfl
      · exact Or.inr (Or.inr (Or.inl h))
      · exact Or.inr (Or.inr (Or.inr h))
    · rintro (⟨hs, hm⟩ | ⟨hs, hm⟩ | h | h)
      · refine Or.inl ⟨⟨[], js "http", m.rest⟩, ⟨hs, rfl⟩, ⟨[], [], m.rest⟩, Or.inr rfl, hm⟩
      · refine Or.inl ⟨⟨[], js "http", js "s" ++ m.rest⟩, ⟨hs, rfl⟩, ⟨[], js "s", m.rest⟩,
          Or.inl ⟨rfl, rfl⟩, hm⟩
      · exact Or.inr (Or.inl h)
      · exact Or.inr (Or.inr h)
  rw [protocolPart, mem_results_seq]
  constructor
  · rintro ⟨a, ha, b, hb, rfl⟩
    obtain ⟨a, ha', rfl⟩ := mem_results_group.mp ha
    obtain ⟨p, hp, hs, hm⟩ := hname.mp ha'
    obtain ⟨hrest, hb⟩ := mem_results_word.mp hb
    refine ⟨p, hp, ?_, ?_⟩
    · rw [hs, List.append_assoc]
      exact congrArg (p ++ ·) hrest
    · rw [hb, hm]
      rfl
  · rintro ⟨p, hp, hs, hm⟩
    refine ⟨⟨[(2, p)], p, js ":" ++ m.rest⟩, mem_results_group.mpr ⟨⟨[], p, js ":" ++ m.rest⟩,
      hname.mpr ⟨p, hp, ?_, rfl⟩, rfl⟩, ⟨[], js ":", m.rest⟩, mem_results_word.mpr ⟨rfl, rfl⟩, hm⟩
    rw [hs, List.append_assoc]

/-- The expression behind the hash. -/
def behindHash : Regex UInt16 := seq protocolPart (group 3 (many dot))

theorem first_behindHash {p l : JSString} (hp : p ∈ protocols) :
    first behindHash (p ++ js ":" ++ l) =
      some ⟨[(2, p), (3, l.takeWhile dot)], p ++ js ":" ++ l.takeWhile dot, l.dropWhile dot⟩ := by
  have hprotocol : first protocolPart (p ++ js ":" ++ l) = some ⟨[(2, p)], p ++ js ":", l⟩ := by
    have hmem : ⟨[(2, p)], p ++ js ":", l⟩ ∈ results protocolPart (p ++ js ":" ++ l) :=
      mem_results_protocolPart.mpr ⟨p, hp, rfl, rfl⟩
    apply first_of_unique hmem
    intro m hm
    obtain ⟨q, hq, hs, hm⟩ := mem_results_protocolPart.mp hm
    obtain ⟨rfl, hl⟩ := protocol_inj hp hq hs
    rw [hm, hl]
  have hlocation : first (group 3 (many dot)) l =
      some ⟨[(3, l.takeWhile dot)], l.takeWhile dot, l.dropWhile dot⟩ := by
    rw [first_group, first_many]
    rfl
  exact first_seq_of_first hprotocol hlocation

theorem first_behindHash_of_not {t : JSString} (h : ¬Named t) : first behindHash t = none := by
  rw [behindHash, first_seq, List.findSome?_eq_none_iff]
  intro m hm
  obtain ⟨p, hp, hs, -⟩ := mem_results_protocolPart.mp hm
  exact absurd ⟨p, hp, m.rest, hs⟩ h

theorem first_slash_of_not {t : JSString} (h : ∀ u, t = js "/" ++ u → ¬Named u) :
    first (seq (word (js "/")) behindHash) t = none := by
  by_cases hslash : js "/" <+: t
  · obtain ⟨u, rfl⟩ := hslash
    rw [first_wordSeq, first_behindHash_of_not (h u rfl)]
    rfl
  · exact first_wordSeq_of_not _ hslash

/-- The expression is tried with the hash first. -/
theorem first_PROTOCOL_REGEX (t : JSString) :
    first PROTOCOL_REGEX t = (first (seq (word (js "sha256://0x"))
      (seq (group 1 (many dot)) (seq (word (js "/")) behindHash))) t).or (first behindHash t) := by
  have hassoc : ∀ s, first (seq (seq (group 1 (many dot)) (word (js "/"))) behindHash) s =
      first (seq (group 1 (many dot)) (seq (word (js "/")) behindHash)) s :=
    first_seq_assoc _ _ _
  rw [PROTOCOL_REGEX, ← behindHash, first_optSeq, hashPart, first_seq_assoc, first_seq, first_seq]
  simp only [hassoc]

theorem first_of_readsAt {t : JSString} {info : Tzip16Uri} (h : ReadsAt t info) :
    (first PROTOCOL_REGEX t).map uriOfMatch = some info := by
  rw [first_PROTOCOL_REGEX]
  cases h with
  | named hp =>
    rw [first_wordSeq_of_not _ (not_hash_of_named hp), Option.none_or, first_behindHash hp]
    rfl
  | @hashed x p l hx hp hlast =>
    have hslash : first (seq (word (js "/")) behindHash) (js "/" ++ (p ++ js ":" ++ l)) =
        some ⟨[(2, p), (3, l.takeWhile dot)], js "/" ++ (p ++ js ":" ++ l.takeWhile dot),
          l.dropWhile dot⟩ := by
      rw [first_wordSeq, first_behindHash hp]
      rfl
    have hgroup : first (seq (group 1 (many dot)) (seq (word (js "/")) behindHash))
        (x ++ (js "/" ++ (p ++ js ":" ++ l))) =
        some ⟨[(1, x), (2, p), (3, l.takeWhile dot)],
          x ++ (js "/" ++ (p ++ js ":" ++ l.takeWhile dot)), l.dropWhile dot⟩ := by
      rw [first_groupManySeq, findSome?_splits]
      refine ⟨x, _, rfl, hx, by rw [hslash]; rfl, fun y u hyu hy hdots => ?_⟩
      rw [Option.map_eq_none_iff]
      apply first_slash_of_not
      rintro v rfl hv
      match y, hy with
      | c :: y, _ =>
        have htail : p ++ js ":" ++ l = y ++ (js "/" ++ v) := (List.cons.inj hyu).2
        exact hlast ⟨y, v, by rw [htail, List.append_assoc],
          (List.forall_mem_cons.mp hdots).2, hv⟩
    rw [List.append_assoc, List.append_assoc, first_wordSeq, hgroup]
    rfl

theorem first_of_not_matched {t : JSString} (h : ¬Matched t) : first PROTOCOL_REGEX t = none := by
  rw [first_PROTOCOL_REGEX, first_behindHash_of_not (mt Or.inl h), Option.or_none]
  by_cases hhash : js "sha256://0x" <+: t
  · obtain ⟨r, rfl⟩ := hhash
    rw [first_wordSeq, first_groupManySeq, Option.map_eq_none_iff, List.findSome?_eq_none_iff]
    rintro ⟨x, u⟩ hmem
    obtain ⟨rfl, hx⟩ := mem_splits.mp hmem
    rw [Option.map_eq_none_iff]
    apply first_slash_of_not
    rintro v rfl hv
    exact h (Or.inr ⟨_, rfl, x, v, (List.append_assoc _ _ _).symm, hx, hv⟩)
  · exact first_wordSeq_of_not _ hhash

/-- Behind a slash before a name there is a last one. -/
theorem exists_last {n : ℕ} : ∀ {r : JSString}, r.length ≤ n → NamedBehindSlash r →
    ∃ x u, r = x ++ js "/" ++ u ∧ (∀ c ∈ x, dot c) ∧ Named u ∧ ¬NamedBehindSlash u := by
  induction n with
  | zero =>
    rintro r hlength ⟨x, u, rfl, -⟩
    simp [js] at hlength
  | succ n ih =>
    rintro r hlength ⟨x, u, rfl, hx, hu⟩
    by_cases hmore : NamedBehindSlash u
    · have hshort : u.length ≤ n := by
        simp only [List.length_append, js] at hlength
        simp at hlength
        omega
      obtain ⟨y, v, rfl, hy, hv, hlast⟩ := ih hshort hmore
      refine ⟨x ++ js "/" ++ y, v, by simp only [List.append_assoc], ?_, hv, hlast⟩
      intro c hc
      rcases List.mem_append.mp hc with hc | hc
      · rcases List.mem_append.mp hc with hc | hc
        · exact hx c hc
        · obtain rfl := List.mem_singleton.mp hc
          decide
      · exact hy c hc
    · exact ⟨x, u, rfl, hx, hu, hmore⟩

theorem exists_readsAt {t : JSString} (h : Matched t) : ∃ info, ReadsAt t info := by
  rcases h with ⟨p, hp, l, rfl⟩ | ⟨r, rfl, hr⟩
  · exact ⟨_, .named hp⟩
  · obtain ⟨x, u, rfl, hx, ⟨p, hp, l, rfl⟩, hlast⟩ := exists_last le_rfl hr
    exact ⟨_, by simpa only [List.append_assoc] using ReadsAt.hashed hx hp hlast⟩

/-! ## What the search finds -/

/-- What the expression reads in a text: at the first place where it matches. -/
def Reads (s : JSString) (info : Tzip16Uri) : Prop :=
  ∃ z t, s = z ++ t ∧ ReadsAt t info ∧ ∀ x y, z = x ++ y → y ≠ [] → ¬Matched (y ++ t)

theorem first_eq_none_iff_not_matched {t : JSString} :
    first PROTOCOL_REGEX t = none ↔ ¬Matched t := by
  constructor
  · intro hnone h
    obtain ⟨info, hinfo⟩ := exists_readsAt h
    have hsome := first_of_readsAt hinfo
    rw [hnone] at hsome
    exact absurd hsome (Option.some_ne_none _).symm
  · exact first_of_not_matched

theorem readsAt_iff {t : JSString} {info : Tzip16Uri} :
    (first PROTOCOL_REGEX t).map uriOfMatch = some info ↔ ReadsAt t info := by
  constructor
  · intro h
    have hmatched : Matched t := by
      by_contra hnot
      rw [first_of_not_matched hnot] at h
      exact absurd h (Option.some_ne_none _).symm
    obtain ⟨info', hinfo'⟩ := exists_readsAt hmatched
    rw [first_of_readsAt hinfo', Option.some.injEq] at h
    rwa [← h]
  · exact first_of_readsAt

theorem readsAt_unique {t : JSString} {info info' : Tzip16Uri} (h : ReadsAt t info)
    (h' : ReadsAt t info') : info = info' :=
  Option.some.inj ((first_of_readsAt h).symm.trans (first_of_readsAt h'))

theorem extractProtocolInfo_iff {s : JSString} {info : Tzip16Uri} :
    extractProtocolInfo s = some info ↔ Reads s info := by
  rw [extractProtocolInfo, Option.map_eq_some_iff]
  simp only [search_eq_some_iff, first_eq_none_iff_not_matched]
  constructor
  · rintro ⟨m, ⟨z, t, hs, hm, hz⟩, rfl⟩
    exact ⟨z, t, hs, readsAt_iff.mp (by rw [hm]; rfl), hz⟩
  · rintro ⟨z, t, hs, ht, hz⟩
    obtain ⟨m, hm, hinfo⟩ := Option.map_eq_some_iff.mp (readsAt_iff.mpr ht)
    exact ⟨m, ⟨z, t, hs, hm, hz⟩, hinfo⟩

theorem reads_of_readsAt {t : JSString} {info : Tzip16Uri} (h : ReadsAt t info) : Reads t info :=
  ⟨[], t, rfl, h, fun _ _ hxy hy => absurd (List.append_eq_nil_iff.mp hxy.symm).2 hy⟩

/-- A text with a match at its start is read there. -/
theorem readsAt_of_reads {t : JSString} {info : Tzip16Uri} (h : Reads t info) (hm : Matched t) :
    ReadsAt t info := by
  obtain ⟨z, u, rfl, hu, hz⟩ := h
  by_cases hnil : z = []
  · subst hnil
    exact hu
  · exact absurd hm (hz [] z rfl hnil)

theorem reads_append {z t : JSString} {info : Tzip16Uri}
    (h : ∀ x y, z = x ++ y → y ≠ [] → ¬Matched (y ++ t)) : Reads (z ++ t) info ↔ Reads t info := by
  rw [← extractProtocolInfo_iff, ← extractProtocolInfo_iff, extractProtocolInfo,
    search_append fun x y hxy hy => first_of_not_matched (h x y hxy hy), extractProtocolInfo]

/-! ## Hashes -/

/-- Where a text without slashes and a slash end, another slash is the same or comes later. -/
theorem slash_cases {h u x v : JSString} (hh : (47 : UInt16) ∉ h)
    (he : h ++ js "/" ++ u = x ++ js "/" ++ v) :
    (x = h ∧ v = u) ∨ ∃ w, x = h ++ js "/" ++ w ∧ u = w ++ js "/" ++ v := by
  rw [List.append_assoc, List.append_assoc, List.append_eq_append_iff] at he
  rcases he with ⟨w, rfl, hw⟩ | ⟨w, rfl, hw⟩
  · cases w with
    | nil =>
      rw [List.nil_append] at hw
      exact Or.inl ⟨List.append_nil h, (List.append_cancel_left hw).symm⟩
    | cons c w =>
      obtain ⟨hc, hu⟩ := List.cons.inj hw
      refine Or.inr ⟨w, ?_, ?_⟩
      · rw [← hc, List.append_assoc]
        rfl
      · rw [List.append_assoc]
        exact hu
  · cases w with
    | nil =>
      rw [List.nil_append] at hw
      exact Or.inl ⟨(List.append_nil x).symm, List.append_cancel_left hw⟩
    | cons c w =>
      obtain rfl : (47 : UInt16) = c := (List.cons.inj hw).1
      exact absurd (List.mem_append_right x List.mem_cons_self) hh

theorem slash_notMem {h : JSString} (hh : ∀ c ∈ h, isHexDigit c) : (47 : UInt16) ∉ h :=
  fun hmem => absurd (hh 47 hmem) (by decide)

theorem dot_of_isHexDigit {c : UInt16} (h : isHexDigit c = true) : dot c = true := by
  by_contra hdot
  rw [dot, Bool.not_eq_true', Bool.not_eq_false, List.contains_iff_mem] at hdot
  have key : [0x0A, 0x0D, 0x2028, 0x2029].all (fun c : UInt16 => !isHexDigit c) = true := by
    decide
  have hnot := List.all_eq_true.mp key c hdot
  rw [h] at hnot
  exact Bool.false_ne_true hnot

/-- How a match starts. -/
theorem matched_start {t : JSString} (h : Matched t) :
    t.head? = some 115 ∨ t.head? = some 105 ∨ t.head? = some 116 ∨
      (t.head? = some 104 ∧ t.tail.head? = some 116) := by
  rcases h with ⟨p, hp, l, rfl⟩ | ⟨r, rfl, -⟩
  · simp only [protocols, List.mem_cons, List.not_mem_nil, or_false] at hp
    rcases hp with rfl | rfl | rfl | rfl
    · exact Or.inr (Or.inr (Or.inr ⟨rfl, rfl⟩))
    · exact Or.inr (Or.inr (Or.inr ⟨rfl, rfl⟩))
    · exact Or.inr (Or.inl rfl)
    · exact Or.inr (Or.inr (Or.inl rfl))
  · exact Or.inl rfl

/-- Behind `sh` no match starts. -/
theorem head_inside {h : JSString} (hh : ∀ c ∈ h, isHexDigit c) {c : UInt16}
    (hc : c ∈ js "a256://0x" ++ h ++ js "/") : c ≠ 115 ∧ c ≠ 105 ∧ c ≠ 116 ∧ c ≠ 104 := by
  have hkey : ∀ d : UInt16, isHexDigit d = true ∨ d ∈ js "://x" →
      d ≠ 115 ∧ d ≠ 105 ∧ d ≠ 116 ∧ d ≠ 104 := by
    intro d hd
    refine ⟨?_, ?_, ?_, ?_⟩ <;> rintro rfl <;> exact absurd hd (by decide)
  apply hkey
  rcases List.mem_append.mp hc with hc | hc
  · rcases List.mem_append.mp hc with hc | hc
    · have key : (js "a256://0x").all (fun c => isHexDigit c || (js "://x").contains c) = true := by
        decide
      have hc := List.all_eq_true.mp key c hc
      rw [Bool.or_eq_true, List.contains_iff_mem] at hc
      exact hc
    · exact Or.inl (hh c hc)
  · obtain rfl := List.mem_singleton.mp hc
    exact Or.inr (by decide)

/-- No match starts inside `sha256://0x`, a hash and a slash, unless a name follows a slash. -/
theorem not_matched_inside {h u : JSString} (hh : ∀ c ∈ h, isHexDigit c) (hu : ¬Named u)
    (hslash : ¬NamedBehindSlash u) {x y : JSString} (hxy : js "sha256://0x" ++ h ++ js "/" = x ++ y)
    (hy : y ≠ []) : ¬Matched (y ++ u) := by
  have hsh : js "sha256://0x" ++ h ++ js "/" = 115 :: 104 :: (js "a256://0x" ++ h ++ js "/") := rfl
  obtain ⟨c, y, rfl⟩ := List.exists_cons_of_ne_nil hy
  intro hm
  have hstart := matched_start hm
  simp only [List.cons_append, List.head?_cons, List.tail_cons, Option.some.injEq] at hstart
  match x with
  | [] =>
    rw [List.nil_append] at hxy
    rw [← hxy] at hm
    rcases hm with ⟨p, hp, l, he⟩ | ⟨r, he, x, v, hr, hx, hv⟩
    · exact not_hash_of_named (l := l) hp ⟨_, by rw [← he, List.append_assoc, List.append_assoc]⟩
    · rw [List.append_assoc, List.append_assoc] at he
      have hr' : h ++ js "/" ++ u = x ++ js "/" ++ v := by
        rw [← hr, List.append_assoc]
        exact List.append_cancel_left he
      rcases slash_cases (slash_notMem hh) hr' with ⟨rfl, rfl⟩ | ⟨w, rfl, hw⟩
      · exact hu hv
      · exact hslash ⟨w, v, hw, fun c hc => hx c (List.mem_append_right _ hc), hv⟩
  | [a] =>
    rw [hsh] at hxy
    obtain ⟨-, hxy⟩ := List.cons.inj hxy
    obtain ⟨rfl, rfl⟩ := List.cons.inj hxy
    rcases hstart with h | h | h | ⟨-, h⟩
    · exact absurd h (by decide)
    · exact absurd h (by decide)
    · exact absurd h (by decide)
    · exact absurd h (by simp [js])
  | a :: b :: x =>
    rw [hsh] at hxy
    have hrest := (List.cons.inj (List.cons.inj hxy).2).2
    have hc : c ∈ js "a256://0x" ++ h ++ js "/" := by
      rw [hrest]
      exact List.mem_append_right x List.mem_cons_self
    obtain ⟨h1, h2, h3, h4⟩ := head_inside hh hc
    rcases hstart with h | h | h | ⟨h, -⟩
    · exact h1 h
    · exact h2 h
    · exact h3 h
    · exact h4 h

/-- Where a hash is read, it and a slash are followed by the last name. -/
theorem hash_of_readsAt {t h : JSString} {info : Tzip16Uri} (hreads : ReadsAt t info)
    (hhash : info.sha256hash = some h) : ∃ p l, p ∈ protocols ∧
      t = js "sha256://0x" ++ h ++ js "/" ++ (p ++ js ":" ++ l) ∧
      ¬NamedBehindSlash (p ++ js ":" ++ l) := by
  cases hreads with
  | named hp => exact absurd hhash (Option.some_ne_none h).symm
  | @hashed x p l hx hp hlast =>
    obtain rfl : x = h := Option.some.inj hhash
    exact ⟨p, l, hp, rfl, hlast⟩

/-- **A hash in front of a URI is read as the hash of that URI, if and only if no slash on its first
line comes before the name of a protocol, and the URI starts with such a name or has itself, further
on, that hash.** -/
theorem hash_iff {h u : JSString} (hh : ∀ c ∈ h, isHexDigit c) {info : Tzip16Uri}
    (hinfo : extractProtocolInfo u = some info) :
    extractProtocolInfo (js "sha256://0x" ++ h ++ js "/" ++ u) =
        some { info with sha256hash := some h } ↔
      ¬NamedBehindSlash u ∧ (Named u ∨ info.sha256hash = some h) := by
  rw [extractProtocolInfo_iff] at hinfo ⊢
  by_cases hslash : NamedBehindSlash u
  · rw [iff_false_intro (not_and_of_not_left _ (not_not_intro hslash)), iff_false]
    intro hreads
    have hmatched : Matched (js "sha256://0x" ++ h ++ js "/" ++ u) := by
      obtain ⟨x, v, rfl, hx, hv⟩ := hslash
      refine Or.inr ⟨h ++ js "/" ++ (x ++ js "/" ++ v), by simp only [List.append_assoc],
        h ++ js "/" ++ x, v, by simp only [List.append_assoc], ?_, hv⟩
      intro c hc
      rcases List.mem_append.mp hc with hc | hc
      · rcases List.mem_append.mp hc with hc | hc
        · exact dot_of_isHexDigit (hh c hc)
        · obtain rfl := List.mem_singleton.mp hc
          decide
      · exact hx c hc
    obtain ⟨p, l, -, hu, hlast⟩ := hash_of_readsAt (readsAt_of_reads hreads hmatched) rfl
    rw [List.append_cancel_left hu] at hslash
    exact hlast hslash
  · rw [and_iff_right hslash]
    by_cases hu : Named u
    · rw [iff_true_right (Or.inl hu)]
      obtain ⟨p, hp, l, rfl⟩ := hu
      have hinfo' := readsAt_of_reads hinfo (Or.inl ⟨p, hp, l, rfl⟩)
      rw [readsAt_unique hinfo' (.named hp)]
      exact reads_of_readsAt (.hashed (fun c hc => dot_of_isHexDigit (hh c hc)) hp hslash)
    · rw [or_iff_right hu, reads_append fun x y => not_matched_inside hh hu hslash]
      constructor
      · intro hreads
        have hsame := (extractProtocolInfo_iff.mpr hinfo).symm.trans
          (extractProtocolInfo_iff.mpr hreads)
        exact congrArg Tzip16Uri.sha256hash (Option.some.inj hsame)
      · intro hhash
        rw [← hhash]
        exact hinfo

/-! ## Keys of a metadata big map -/

/-- The expression behind the contract. -/
def pathPart : Regex UInt16 := seq (group 3 (plus isPathChar)) finish

/-- A path that the expression knows. -/
def IsPath (t : JSString) : Prop := t ≠ [] ∧ ∀ c ∈ t, isPathChar c = true

theorem mem_results_pathPart {s : JSString} {m : Match UInt16} :
    m ∈ results pathPart s ↔ IsPath s ∧ m = ⟨[(3, s)], s, []⟩ := by
  rw [pathPart, mem_results_seq]
  constructor
  · rintro ⟨a, ha, b, hb, rfl⟩
    obtain ⟨a, ha', rfl⟩ := mem_results_group.mp ha
    obtain ⟨hs, hne, hall, hgroups⟩ := mem_results_plus.mp ha'
    obtain ⟨hrest, hb⟩ := mem_results_finish.mp hb
    dsimp only at hrest
    rw [hrest, List.append_nil] at hs
    rw [hs, hb, hgroups]
    refine ⟨⟨hne, hall⟩, ?_⟩
    rw [Match.append, List.append_nil, List.append_nil]
  · rintro ⟨⟨hne, hall⟩, rfl⟩
    refine ⟨⟨[(3, s)], s, []⟩, mem_results_group.mpr ⟨⟨[], s, []⟩, ?_, rfl⟩, ⟨[], [], []⟩,
      mem_results_finish.mpr ⟨rfl, rfl⟩, ?_⟩
    · exact mem_results_plus.mpr ⟨(List.append_nil s).symm, hne, hall, rfl⟩
    · rw [Match.append, List.append_nil, List.append_nil]

theorem first_pathPart {s : JSString} (h : IsPath s) :
    first pathPart s = some ⟨[(3, s)], s, []⟩ :=
  first_of_unique (mem_results_pathPart.mpr ⟨h, rfl⟩) fun _ hm => (mem_results_pathPart.mp hm).2

theorem first_pathPart_of_not {s : JSString} (h : ¬IsPath s) : first pathPart s = none :=
  first_eq_none_iff.mpr fun _ hm => h (mem_results_pathPart.mp hm).1

/-- The address of a contract, as far as the expression looks at it. -/
def IsContract (a : JSString) : Prop :=
  ∃ w, a = js "KT1" ++ w ∧ w.length = 33 ∧ ∀ c ∈ w, isWordChar c = true

/-- The expression for a contract without a network, behind `//`. -/
theorem first_contract {a t : JSString} (ha : IsContract a) :
    first (seq (seq (group 1 (seq (word (js "KT1")) (times isWordChar 33)))
      (seq (opt (seq (word (js ".")) (group 2 (plus dot)))) (word (js "/")))) pathPart)
      (a ++ (js "/" ++ t)) =
      (first pathPart t).map (Match.append ⟨[(1, a)], a ++ js "/", t⟩) := by
  obtain ⟨w, rfl, hlength, hw⟩ := ha
  have hcontract : ∀ {m : Match UInt16},
      m ∈ results (group 1 (seq (word (js "KT1")) (times isWordChar 33)))
        (js "KT1" ++ w ++ (js "/" ++ t)) ↔
      m = ⟨[(1, js "KT1" ++ w)], js "KT1" ++ w, js "/" ++ t⟩ := by
    intro m
    rw [mem_results_group]
    simp only [mem_results_seq, mem_results_word, mem_results_times]
    constructor
    · rintro ⟨b, ⟨c, ⟨hs, hc⟩, d, ⟨hrest, hd, -, hgroups⟩, rfl⟩, rfl⟩
      rw [hrest, List.append_assoc] at hs
      have hsplit := List.append_inj (List.append_cancel_left hs) (hlength.trans hd.symm)
      rw [hc, Match.append, hgroups, ← hsplit.1, ← hsplit.2]
      rfl
    · rintro rfl
      refine ⟨⟨[], js "KT1" ++ w, js "/" ++ t⟩, ⟨⟨[], js "KT1", w ++ (js "/" ++ t)⟩, ⟨?_, rfl⟩,
        ⟨[], w, js "/" ++ t⟩, ⟨rfl, hlength, hw, rfl⟩, rfl⟩, rfl⟩
      rw [List.append_assoc]
  have hslash : ∀ {m : Match UInt16},
      m ∈ results (seq (opt (seq (word (js ".")) (group 2 (plus dot)))) (word (js "/")))
        (js "/" ++ t) ↔ m = ⟨[], js "/", t⟩ := by
    intro m
    rw [mem_results_seq]
    simp only [mem_results_opt, mem_results_seq, mem_results_word]
    constructor
    · rintro ⟨b, ⟨c, ⟨hs, -⟩, -⟩ | rfl, d, ⟨hrest, hd⟩, rfl⟩
      · exact absurd (List.cons.inj hs).1 (by decide)
      · rw [hd, ← List.append_cancel_left hrest]
        rfl
    · rintro rfl
      exact ⟨⟨[], [], js "/" ++ t⟩, Or.inr rfl, ⟨[], js "/", t⟩, ⟨rfl, rfl⟩, rfl⟩
  rw [first_seq_assoc,
    first_seq_of_unique _ (hcontract.mpr rfl) fun m hm => hcontract.mp hm,
    first_seq_of_unique _ (hslash.mpr rfl) fun m hm => hslash.mp hm, Option.map_map]
  congr 1
  funext m
  exact (Match.append_assoc _ _ m).symm

/-- A path alone is a path of the current contract. -/
theorem first_path {t : JSString} (ht : ¬ js "//" <+: t) :
    first TEZOS_STORAGE_REGEX t = first pathPart t := by
  rw [TEZOS_STORAGE_REGEX, ← pathPart, first_optSeq, contractPart, first_seq_assoc,
    first_wordSeq_of_not _ ht, Option.none_or]

/-- A contract and a path. -/
theorem first_contractPath {a t : JSString} (ha : IsContract a) :
    first TEZOS_STORAGE_REGEX (js "//" ++ a ++ js "/" ++ t) =
      (first pathPart t).map (Match.append ⟨[(1, a)], js "//" ++ a ++ js "/", t⟩) := by
  have hnot : ¬IsPath (js "//" ++ a ++ js "/" ++ t) := by
    intro h
    have hslash := h.2 47 (List.mem_append_left t (List.mem_append_right _ List.mem_cons_self))
    exact absurd hslash (by decide)
  rw [TEZOS_STORAGE_REGEX, ← pathPart, first_optSeq, first_pathPart_of_not hnot, Option.or_none,
    contractPart, first_seq_assoc, List.append_assoc, List.append_assoc, first_wordSeq,
    first_contract ha, Option.map_map]
  congr 1

section

variable {k : JSString}

theorem mark_iff {c : UInt16} (h : isWordChar c = true ∨ c = 37 ∨ isMark c = true) :
    dot c = true ∧ c ≠ 47 ∧ (isPathChar c = true ↔ isMark c = false) := by
  have hplain : ∀ {c : UInt16}, (isWordChar c || c == 37) = true →
      dot c = true ∧ c ≠ 47 ∧ isMark c = false := by
    intro c hc
    refine ⟨?_, ?_, ?_⟩
    · by_contra hdot
      rw [dot, Bool.not_eq_true', Bool.not_eq_false, List.contains_iff_mem] at hdot
      have key : [0x0A, 0x0D, 0x2028, 0x2029].all
          (fun c : UInt16 => !(isWordChar c || c == 37)) = true := by decide
      have hnot := List.all_eq_true.mp key c hdot
      rw [hc] at hnot
      exact Bool.false_ne_true hnot
    · rintro rfl
      exact absurd hc (by decide)
    · by_contra hmark
      rw [Bool.not_eq_false, isMark, List.contains_iff_mem] at hmark
      have key : (js "-.!~*'()").all (fun c => !(isWordChar c || c == 37)) = true := by
        decide
      have hnot := List.all_eq_true.mp key c hmark
      rw [hc] at hnot
      exact Bool.false_ne_true hnot
  have hmarked : isMark c = true → dot c = true ∧ c ≠ 47 ∧ isPathChar c = false := by
    intro hc
    have key : (js "-.!~*'()").all (fun c => dot c && c != 47 && !isPathChar c) = true := by
      decide
    have hall := List.all_eq_true.mp key c (List.contains_iff_mem.mp hc)
    simpa [and_assoc] using hall
  rcases h with h | rfl | h
  · obtain ⟨hdot, hne, hmark⟩ := hplain (c := c) (by rw [h, Bool.true_or])
    exact ⟨hdot, hne, iff_of_true (by rw [isPathChar, h, Bool.true_or, Bool.true_or]) hmark⟩
  · exact ⟨by decide, by decide, by decide⟩
  · obtain ⟨hdot, hne, hpath⟩ := hmarked h
    rw [hpath, h]
    exact ⟨hdot, hne, by decide⟩

/-- The path expression knows the encodings of keys without marks. -/
theorem isPath_encodeUnits (hk : wellFormed k = true) (hne : k ≠ []) :
    IsPath (encodeUnits k) ↔ ∀ c ∈ k, isMark c = false := by
  rw [IsPath, and_iff_right (encodeUnits_ne_nil hk hne)]
  constructor
  · intro h c hc
    by_contra hmark
    rw [Bool.not_eq_false] at hmark
    have hmem := (mark_mem_encodeUnits hk hmark).mpr hc
    have hpath := (mark_iff (mem_encodeUnits hk hmem)).2.2.mp (h c hmem)
    rw [hmark] at hpath
    exact Bool.false_ne_true hpath.symm
  · intro h c hc
    rw [(mark_iff (mem_encodeUnits hk hc)).2.2]
    by_contra hmark
    rw [Bool.not_eq_false] at hmark
    rw [h c ((mark_mem_encodeUnits hk hmark).mp hc)] at hmark
    exact Bool.false_ne_true hmark

theorem not_slashes_encodeUnits (hk : wellFormed k = true) : ¬ js "//" <+: encodeUnits k := by
  rintro ⟨t, ht⟩
  have hmem : (47 : UInt16) ∈ encodeUnits k := by
    rw [← ht]
    exact List.mem_cons_self
  exact (mark_iff (mem_encodeUnits hk hmem)).2.1 rfl

theorem takeWhile_dot {s : JSString} (h : ∀ c ∈ s, dot c = true) : s.takeWhile dot = s :=
  List.takeWhile_eq_self_iff.mpr h

/-- The location of a key of a contract, or of the current one. -/
def locationOf (a : Option JSString) (k : JSString) : JSString :=
  match a with
  | none => encodeUnits k
  | some a => js "//" ++ a ++ js "/" ++ encodeUnits k

/-- `parseTezosStorageUri` finds the contract and the key, or nothing. -/
theorem parse_locationOf {a : Option JSString} (ha : ∀ b ∈ a, IsContract b)
    (hk : wellFormed k = true) (hne : k ≠ []) :
    ((∀ c ∈ k, isMark c = false) →
      parseTezosStorageUri (locationOf a k) = .ok (some ⟨a, none, k⟩)) ∧
    ((¬∀ c ∈ k, isMark c = false) → parseTezosStorageUri (locationOf a k) = .ok none) := by
  have hdecode : decodeURIComponent (encodeUnits k) = some k :=
    decodeRun_encodeUnits hk (a := []) rfl
  rw [← isPath_encodeUnits hk hne]
  cases a with
  | none =>
    rw [locationOf, parseTezosStorageUri, first_path (not_slashes_encodeUnits hk)]
    constructor
    · intro hpath
      rw [first_pathPart hpath]
      show (match decodeURIComponent (encodeUnits k) with | none => _ | some path => _) = _
      rw [hdecode]
      rfl
    · intro hpath
      rw [first_pathPart_of_not hpath]
  | some b =>
    rw [locationOf, parseTezosStorageUri, first_contractPath (ha b rfl)]
    constructor
    · intro hpath
      rw [first_pathPart hpath]
      show (match decodeURIComponent (encodeUnits k) with | none => _ | some path => _) = _
      rw [hdecode]
      rfl
    · intro hpath
      rw [first_pathPart_of_not hpath]
      rfl

theorem extractProtocolInfo_locationOf {a : Option JSString} (ha : ∀ b ∈ a, IsContract b)
    (hk : wellFormed k = true) :
    extractProtocolInfo (js "tezos-storage:" ++ locationOf a k) =
      some ⟨none, js "tezos-storage", locationOf a k⟩ := by
  have hkey : ∀ c ∈ encodeUnits k, dot c = true := fun c hc => (mark_iff (mem_encodeUnits hk hc)).1
  have hdots : ∀ c ∈ locationOf a k, dot c = true := by
    cases a with
    | none => exact hkey
    | some b =>
      obtain ⟨w, rfl, -, hw⟩ := ha b rfl
      intro c hc
      simp only [locationOf, List.mem_append] at hc
      rcases hc with ((hc | hc | hc) | hc) | hc
      · exact List.all_eq_true.mp (show (js "//").all dot = true by decide) c hc
      · exact List.all_eq_true.mp (show (js "KT1").all dot = true by decide) c hc
      · exact (mark_iff (Or.inl (hw c hc))).1
      · exact List.all_eq_true.mp (show (js "/").all dot = true by decide) c hc
      · exact hkey c hc
  have hreads := ReadsAt.named (p := js "tezos-storage") (l := locationOf a k) (by decide)
  rw [takeWhile_dot hdots] at hreads
  rw [extractProtocolInfo_iff]
  exact reads_of_readsAt hreads

/-- The metadata of a URI is what stands at a key of the metadata big map of a contract. -/
def ResolvesTo (uri address contract key : JSString) : Prop :=
  ∀ (J : Type) (parseJSON : JSString → Option J) (network : Network),
    provideMetadata parseJSON DEFAULT_HANDLERS network address uri = do
      let metadata ← readMetadata network contract key
      envelope parseJSON uri none metadata

/-- A network that rejects every request. -/
def offline : Network := ⟨fun _ => none, fun _ _ => none, fun _ => none⟩

theorem provideMetadata_locationOf {a : Option JSString} (ha : ∀ b ∈ a, IsContract b)
    (hk : wellFormed k = true) (hne : k ≠ []) {J : Type} (parseJSON : JSString → Option J)
    (network : Network) (address : JSString) :
    provideMetadata parseJSON DEFAULT_HANDLERS network address
        (js "tezos-storage:" ++ locationOf a k) =
      (do
        let metadata ← TezosStorageHandler network address
          ⟨none, js "tezos-storage", locationOf a k⟩
        envelope parseJSON (js "tezos-storage:" ++ locationOf a k) none metadata) := by
  have hlocation : (locationOf a k).isEmpty = false := by
    rw [List.isEmpty_eq_false_iff]
    cases a with
    | none => exact encodeUnits_ne_nil hk hne
    | some b => exact List.cons_ne_nil _ _
  have hhandler : DEFAULT_HANDLERS.lookup (js "tezos-storage") = some TezosStorageHandler := rfl
  rw [provideMetadata, extractProtocolInfo_locationOf ha hk]
  dsimp only
  rw [hlocation, if_neg Bool.false_ne_true, hhandler]

/-- **The URI of a key is resolved to it, if and only if the key has none of the marks.** -/
theorem resolvesTo_iff {a : Option JSString} (ha : ∀ b ∈ a, IsContract b)
    (hk : wellFormed k = true) (hne : k ≠ []) (address : JSString) :
    ResolvesTo (js "tezos-storage:" ++ locationOf a k) address (a.getD address) k ↔
      ∀ c ∈ k, isMark c = false := by
  obtain ⟨hfound, hnot⟩ := parse_locationOf ha hk hne
  constructor
  · intro h
    by_contra hmark
    have hoffline := h Unit (fun _ => none) offline
    rw [provideMetadata_locationOf ha hk hne, TezosStorageHandler, hnot hmark] at hoffline
    exact MetadataError.noConfusion (Except.error.inj hoffline)
  · intro hplain J parseJSON network
    rw [provideMetadata_locationOf ha hk hne, TezosStorageHandler, hfound hplain]
    rfl

end

/-! ## Rejected texts -/

/-- A text is refused as a URI, whatever the network answers. -/
def Rejected (s : JSString) : Prop :=
  ∀ (J : Type) (parseJSON : JSString → Option J) (network : Network) (address : JSString),
    ∃ uri, provideMetadata parseJSON DEFAULT_HANDLERS network address s = .error (.InvalidUri uri)

/-- What the expression reads in the text, if anything, has nothing on the line behind the colon, or
is a location that the handler of `tezos-storage` cannot take apart. -/
def Unread (s : JSString) : Prop :=
  ∀ info, Reads s info → info.location = [] ∨
    (info.protocol = js "tezos-storage" ∧ parseTezosStorageUri info.location = .ok none)

theorem protocol_of_reads {s : JSString} {info : Tzip16Uri} (h : Reads s info) :
    info.protocol ∈ protocols := by
  obtain ⟨z, t, -, ht, -⟩ := h
  cases ht with
  | named hp => exact hp
  | hashed _ hp _ => exact hp

/-- Without a network a handler fails, and only the one of `tezos-storage` by refusing the URI. -/
theorem handler_offline {info : Tzip16Uri} (hp : info.protocol ∈ protocols) (address : JSString) :
    ∃ handler, DEFAULT_HANDLERS.lookup info.protocol = some handler ∧
      (handler offline address info = .error .URIError ∨
        handler offline address info = .error .request ∨
        (info.protocol = js "tezos-storage" ∧ parseTezosStorageUri info.location = .ok none)) := by
  obtain ⟨sha256hash, protocol, location⟩ := info
  have hhttp : ∀ p, HttpHandler offline address ⟨sha256hash, p, location⟩ = .error .URIError ∨
      HttpHandler offline address ⟨sha256hash, p, location⟩ = .error .request := by
    intro p
    rw [HttpHandler]
    cases decodeURIComponent location with
    | none => exact Or.inl rfl
    | some text => exact Or.inr rfl
  simp only [protocols, List.mem_cons, List.not_mem_nil, or_false] at hp
  rcases hp with rfl | rfl | rfl | rfl
  · exact ⟨HttpHandler, rfl, (hhttp _).imp_right Or.inl⟩
  · exact ⟨HttpHandler, rfl, (hhttp _).imp_right Or.inl⟩
  · exact ⟨IpfsHttpHandler, rfl, Or.inr (Or.inl rfl)⟩
  · refine ⟨TezosStorageHandler, rfl, ?_⟩
    rw [TezosStorageHandler]
    dsimp only
    unfold parseTezosStorageUri
    cases first TEZOS_STORAGE_REGEX location with
    | none => exact Or.inr (Or.inr ⟨rfl, rfl⟩)
    | some m =>
      dsimp only
      cases decodeURIComponent ((m.get 3).getD []) with
      | none => exact Or.inl rfl
      | some path => exact Or.inr (Or.inl rfl)

/-- **A text is refused, if and only if nothing is read in it.** -/
theorem rejected_iff (s : JSString) : Rejected s ↔ Unread s := by
  constructor
  · intro h info hinfo
    by_cases hempty : info.location = []
    · exact Or.inl hempty
    · obtain ⟨handler, hlookup, hfails⟩ := handler_offline (protocol_of_reads hinfo) []
      obtain ⟨uri, hrejected⟩ := h Unit (fun _ => none) offline []
      rw [provideMetadata, extractProtocolInfo_iff.mpr hinfo] at hrejected
      dsimp only at hrejected
      rw [List.isEmpty_eq_false_iff.mpr hempty, if_neg Bool.false_ne_true, hlookup] at hrejected
      rcases hfails with herror | herror | hparse
      · dsimp only at hrejected
        rw [herror] at hrejected
        exact MetadataError.noConfusion (Except.error.inj hrejected)
      · dsimp only at hrejected
        rw [herror] at hrejected
        exact MetadataError.noConfusion (Except.error.inj hrejected)
      · exact Or.inr hparse
  · intro h J parseJSON network address
    rw [provideMetadata]
    cases hinfo : extractProtocolInfo s with
    | none => exact ⟨s, rfl⟩
    | some info =>
      dsimp only
      by_cases hempty : info.location = []
      · exact ⟨s, by rw [hempty]; rfl⟩
      · obtain ⟨hprotocol, hparse⟩ :=
          (h info (extractProtocolInfo_iff.mp hinfo)).resolve_left hempty
        have hlookup : DEFAULT_HANDLERS.lookup info.protocol = some TezosStorageHandler := by
          rw [hprotocol]
          rfl
        rw [List.isEmpty_eq_false_iff.mpr hempty, if_neg Bool.false_ne_true, hlookup]
        dsimp only
        rw [TezosStorageHandler, hparse]
        exact ⟨_, rfl⟩

/-! ## The main result -/

/-- **The URIs of keys, of hashes and of nothing.** The two URIs of a key are resolved to it if and
only if it has none of the marks that the encoding leaves alone; a hash is read as such if and only
if the URI behind it starts with a protocol and its first line has no slash before another; and a
text that does not start like a URI is refused if and only if nothing is read further on in it. -/
theorem metadataUri_iff (key e contract address h u s : JSString) (info : Tzip16Uri) :
    (encodeURIComponent key = some e → key ≠ [] → IsContract contract →
      (ResolvesTo (js "tezos-storage:" ++ e) address address key ∧
        ResolvesTo (js "tezos-storage:" ++ (js "//" ++ contract ++ js "/" ++ e)) address contract
          key ↔ ∀ c ∈ key, isMark c = false)) ∧
    ((∀ c ∈ h, isHexDigit c) → extractProtocolInfo u = some info → info.location ≠ [] →
      (extractProtocolInfo (js "sha256://0x" ++ h ++ js "/" ++ u) =
          some { info with sha256hash := some h } ↔
        ¬NamedBehindSlash u ∧ (Named u ∨ info.sha256hash = some h))) ∧
    (¬Named s → ¬ js "sha256://" <+: s → (Rejected s ↔ Unread s)) := by
  refine ⟨?_, ?_, ?_⟩
  · intro he hne hcontract
    by_cases hk : wellFormed key = true
    · rw [encodeURIComponent, if_pos hk, Option.some.injEq] at he
      subst he
      have hcurrent := resolvesTo_iff (a := none) (fun _ h => absurd h (by simp)) hk hne address
      have hother := resolvesTo_iff (a := some contract)
        (fun b hb => by rwa [← Option.some.inj hb]) hk hne address
      exact (and_congr hcurrent hother).trans (and_self_iff)
    · rw [encodeURIComponent, if_neg hk] at he
      exact absurd he (Option.some_ne_none e).symm
  · intro hh hinfo _
    exact hash_iff hh hinfo
  · intro _ _
    exact rejected_iff s

/-- A contract with the address `KT1` and ones. -/
def someContract : JSString := js "KT1" ++ List.replicate 33 49

theorem isContract_someContract : IsContract someContract :=
  ⟨_, rfl, List.length_replicate, fun c hc => by rw [List.eq_of_mem_replicate hc]; decide⟩

theorem metadataUri_iff_example :
    (ResolvesTo (js "tezos-storage:" ++ js "a") [] [] (js "a") ∧
      ResolvesTo (js "tezos-storage:" ++ (js "//" ++ someContract ++ js "/" ++ js "a")) []
        someContract (js "a") ↔ ∀ c ∈ js "a", isMark c = false) ∧
    (extractProtocolInfo (js "sha256://0x" ++ js "00" ++ js "/" ++ js "http:a") =
        some ⟨some (js "00"), js "http", js "a"⟩ ↔
      ¬NamedBehindSlash (js "http:a") ∧
        (Named (js "http:a") ∨ (none : Option JSString) = some (js "00"))) ∧
    (Rejected [] ↔ Unread []) := by
  have hnamed : ¬Named [] := by
    rintro ⟨p, -, l, he⟩
    exact absurd he (by simp [js])
  have hread : extractProtocolInfo (js "http:a") = some ⟨none, js "http", js "a"⟩ :=
    extractProtocolInfo_iff.mpr (reads_of_readsAt (.named (p := js "http") (by decide)))
  obtain ⟨hkey, hhash, hnone⟩ := metadataUri_iff (js "a") (js "a") someContract [] (js "00")
    (js "http:a") [] ⟨none, js "http", js "a"⟩
  refine ⟨hkey (by decide) (by decide) isContract_someContract, ?_, hnone hnamed (by decide)⟩
  exact hhash (List.all_eq_true.mp (show (js "00").all isHexDigit = true by decide)) hread
    (by decide)

/-- The key `a-b` is not resolved. -/
theorem not_metadataUri :
    ¬∀ key e contract address, encodeURIComponent key = some e → key ≠ [] → IsContract contract →
      ResolvesTo (js "tezos-storage:" ++ e) address address key ∧
        ResolvesTo (js "tezos-storage:" ++ (js "//" ++ contract ++ js "/" ++ e)) address contract
          key := by
  intro h
  have hkey := (h (js "a-b") (js "a-b") someContract [] (by decide) (by decide)
    isContract_someContract).1
  have hplain := (resolvesTo_iff (a := none) (k := js "a-b") (fun _ h => absurd h (by simp))
    (by decide) (by decide) []).mp hkey
  exact absurd (hplain 45 (by decide)) (by decide)

end Tzip16
