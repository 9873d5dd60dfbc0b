import Converger.Text

/-!
# Trusted proxies

`ConvergerWeb.Plugs.TrustedProxies` walks `X-Forwarded-For` from the right, over the proxies it
trusts. What a client writes stands to the left of what the proxies add.
-/
namespace Converger.TrustedProxies
open Text List

/-- The code points of a binary; `none` is a byte that belongs to none. -/
abbrev Binary := List (Option Char)

inductive Ip where
  | v4 (a : BitVec 32)
  | v6 (a : BitVec 128)
  deriving DecidableEq

inductive Block where
  | v4 (net mask : BitVec 32)
  | v6 (net mask : BitVec 128)

/-- An IPv4-mapped IPv6 address is treated as IPv4. -/
def normalize : Ip → Ip
  | .v6 a => if a.extractLsb' 32 96 = 0xFFFF then .v4 (a.extractLsb' 0 32) else .v6 a
  | ip => ip

def member (ip : Ip) (blocks : List Block) : Bool :=
  blocks.any fun block => match normalize ip, block with
    | .v4 a, .v4 net mask => a &&& mask == net
    | .v6 a, .v6 net mask => a &&& mask == net
    | _, _ => false

def trim (b : Binary) : Binary :=
  ((b.dropWhile (·.any isSpace)).reverse.dropWhile (·.any isSpace)).reverse

variable (inet : List Char → Option Ip)

/-- `inet` is `:inet.parse_strict_address/1`; `String.to_charlist/1` raises for a byte that is not part
of a code point. -/
def parseAddress (addr : Binary) : Except Unit (Option Ip) :=
  match (trim addr).mapM id with
  | some cs => .ok ((inet cs).map normalize)
  | none => .error ()

def parseEntry : Binary → Except Unit (Option Ip)
  | some '[' :: rest =>
    match rest.dropWhile (· ≠ some ']') with
    | _ :: port =>
      if port = [] ∨ port.head? = some (some ':') then parseAddress inet (rest.takeWhile (· ≠ some ']'))
      else .ok none
    | [] => .ok none
  | entry =>
    match parseAddress inet entry with
    | .ok none =>
      match entry.splitOn (some ':') with
      | [addr, port] => if port = [] then .ok none else parseAddress inet addr
      | _ => .ok none
    | parsed => parsed

def forwardedIps (headers : List Binary) : List Binary :=
  ((headers.flatMap (·.splitOn (some ','))).map trim).filter (· ≠ [])

/-- The walk, from right to left. -/
def resolve (proxies : List Block) : List Binary → Ip → Except Unit Ip
  | [], lastTrusted => .ok lastTrusted
  | entry :: entries, lastTrusted =>
    match parseEntry inet entry with
    | .ok (some ip) => if member ip proxies then resolve proxies entries ip else .ok ip
    | .ok none => .ok lastTrusted
    | .error e => .error e

/-- The new `remote_ip`. -/
def call (proxies : List Block) (peer : Ip) (headers : List Binary) : Except Unit Ip :=
  if proxies.isEmpty = false ∧ member peer proxies then
    resolve inet proxies (forwardedIps headers).reverse peer
  else .ok peer

variable {inet : List Char → Option Ip} {proxies : List Block} {peer ip : Ip}

theorem forwardedIps_append (xs ys : List Binary) :
    forwardedIps (xs ++ ys) = forwardedIps xs ++ forwardedIps ys := by
  simp only [forwardedIps, flatMap_append, map_append, filter_append]

/-- A comma ends what stands before it. -/
theorem forwardedIps_comma (client value : Binary) (rest : List Binary) :
    forwardedIps ((client ++ some ',' :: value) :: rest) =
      forwardedIps [client] ++ forwardedIps (value :: rest) := by
  simp only [forwardedIps, flatMap_cons, flatMap_nil, splitOn_append_cons_self, append_nil, map_append,
    filter_append, append_assoc]

theorem resolve_trusted {entry : Binary} {trusted : List Binary} (rest : List Binary)
    (hentry : parseEntry inet entry = .ok (some ip)) (hip : member ip proxies = false)
    (htrusted : ∀ t ∈ trusted, ∃ a, parseEntry inet t = .ok (some a) ∧ member a proxies) :
    resolve inet proxies (trusted ++ entry :: rest) peer = .ok ip := by
  induction trusted generalizing peer with
  | nil => simp [resolve, hentry, hip]
  | cons t trusted ih =>
    obtain ⟨⟨a, ha, hmember⟩, htrusted⟩ := forall_mem_cons.mp htrusted
    rw [cons_append, resolve, ha]
    exact (if_pos hmember).trans (ih htrusted)

/-! ### Binaries of code points -/

theorem none_mem_trim {b : Binary} : none ∈ trim b ↔ none ∈ b := by
  have hdrop : ∀ b : Binary, none ∈ b.dropWhile (·.any isSpace) ↔ none ∈ b := by
    intro b
    induction b with
    | nil => rfl
    | cons x b ih =>
      cases x with
      | none => simp [dropWhile]
      | some c =>
        rw [dropWhile_cons]
        split <;> simp [ih]
  rw [trim, mem_reverse, hdrop, mem_reverse, hdrop]

theorem mapM_eq_none {b : Binary} : b.mapM id = none ↔ none ∈ b := by
  induction b with
  | nil => simp
  | cons x b ih =>
    cases x with
    | none => simp
    | some c => cases h : b.mapM id <;> simp_all

theorem parseAddress_error {addr : Binary} :
    parseAddress inet addr = .error () ↔ none ∈ addr := by
  rw [← none_mem_trim, ← mapM_eq_none, parseAddress]
  cases (trim addr).mapM id <;> simp

theorem not_mem_of_parsed {addr : Binary} {parsed : Option Ip}
    (h : parseAddress inet addr = .ok parsed) : none ∉ addr := by
  intro hmem
  rw [parseAddress_error.mpr hmem] at h
  cases h

/-- The part of an entry that is taken for an address has no byte without a code point. -/
def Readable : Binary → Prop
  | some '[' :: rest =>
    match rest.dropWhile (· ≠ some ']') with
    | _ :: port => port = [] ∨ port.head? = some (some ':') → none ∉ rest.takeWhile (· ≠ some ']')
    | [] => True
  | entry => none ∉ entry

theorem readable_plain {entry : Binary} (h : ∀ rest, entry = some '[' :: rest → False) :
    Readable entry ↔ none ∉ entry := by
  unfold Readable
  split
  · exact absurd rfl (h _)
  · rfl

theorem parseEntry_error {entry : Binary} :
    parseEntry inet entry = .error () ↔ ¬ Readable entry := by
  have hok : (∀ rest, entry = some '[' :: rest → False) → parseAddress inet entry = .ok none →
      ((.ok none : Except Unit (Option Ip)) = .error () ↔ ¬ Readable entry) := by
    intro hplain hparsed
    rw [readable_plain hplain]
    exact iff_of_false (by simp) (not_not.mpr (not_mem_of_parsed hparsed))
  fun_cases parseEntry inet entry
  case case1 rest _ port hdrop hport =>
    simp only [Readable, hdrop, parseAddress_error]
    tauto
  case case2 rest _ port hdrop hport =>
    simp only [Readable, hdrop]
    tauto
  case case3 rest hdrop =>
    simp only [Readable, hdrop]
    tauto
  case case4 hplain hparsed hsplit => exact hok hplain hparsed
  case case5 hplain hparsed hsplit =>
    rw [parseAddress_error, readable_plain hplain, not_not]
    refine iff_of_false ?_ (not_mem_of_parsed hparsed)
    exact fun hmem => not_mem_of_parsed hparsed (mem_of_mem_splitOn (hsplit ▸ mem_cons_self) hmem)
  case case6 hplain hparsed hsplit => exact hok hplain hparsed
  case case7 hplain _ => rw [parseAddress_error, readable_plain hplain, not_not]

/-- An entry with the address of a trusted proxy. -/
def Trusted (inet : List Char → Option Ip) (proxies : List Block) (entry : Binary) : Prop :=
  ∃ a, parseEntry inet entry = .ok (some a) ∧ member a proxies

/-- The walk raises at the first entry that it cannot read, if it comes there. -/
theorem exists_resolve_iff {entries : List Binary} :
    (∃ ip, resolve inet proxies entries peer = .ok ip) ↔
      ∀ passed entry rest, entries = passed ++ entry :: rest →
        (∀ t ∈ passed, Trusted inet proxies t) → Readable entry := by
  induction entries generalizing peer with
  | nil => simp [resolve]
  | cons first entries ih =>
    rw [resolve]
    cases hparsed : parseEntry inet first with
    | error e =>
      refine iff_of_false (by simp) fun h => ?_
      exact parseEntry_error.mp hparsed (h [] first entries rfl (by simp))
    | ok parsed =>
      have hreadable : Readable first :=
        not_not.mp fun h => by simp [parseEntry_error.mpr h] at hparsed
      have hhead : (∀ passed entry rest, first :: entries = passed ++ entry :: rest →
          (∀ t ∈ passed, Trusted inet proxies t) → Readable entry) ↔
          (Trusted inet proxies first → ∀ passed entry rest, entries = passed ++ entry :: rest →
            (∀ t ∈ passed, Trusted inet proxies t) → Readable entry) := by
        constructor
        · rintro h hfirst passed entry rest rfl hpassed
          exact h (first :: passed) entry rest rfl (forall_mem_cons.mpr ⟨hfirst, hpassed⟩)
        · rintro h (_ | ⟨t, passed⟩) entry rest heq hpassed
          · rw [nil_append, cons.injEq] at heq
            exact heq.1 ▸ hreadable
          · rw [cons_append, cons.injEq] at heq
            obtain ⟨hfirst, hpassed⟩ := forall_mem_cons.mp hpassed
            exact h (heq.1 ▸ hfirst) passed entry rest heq.2 hpassed
      rw [hhead]
      cases parsed with
      | none => exact iff_of_true ⟨peer, rfl⟩ fun ⟨a, ha, _⟩ => by simp [hparsed] at ha
      | some ip =>
        have htrusted : Trusted inet proxies first ↔ member ip proxies := by
          simp [Trusted, hparsed]
        rw [htrusted]
        dsimp only
        split_ifs with hmember
        · rw [ih]
          exact ⟨fun h _ => h, fun h => h hmember⟩
        · exact iff_of_true ⟨ip, rfl⟩ fun h => absurd h hmember

/-- The header of a peer that is not trusted is not read. Behind a trusted peer the last entry that is
not a trusted proxy is the client, whatever stands before it. Nothing is raised exactly if each entry
with only trusted proxies after it can be read. -/
theorem client_behind_proxies_iff (inet : List Char → Option Ip) (proxies : List Block) (peer : Ip) :
    (member peer proxies = false → ∀ headers, call inet proxies peer headers = .ok peer) ∧
    (member peer proxies → ∀ headers client value more c trusted ip,
      client = [] ∨ client.getLast? = some (some ',') →
      forwardedIps (value :: more) = c :: trusted → parseEntry inet c = .ok (some ip) →
      member ip proxies = false → (∀ t ∈ trusted, Trusted inet proxies t) →
      call inet proxies peer (headers ++ (client ++ value) :: more) = .ok ip) ∧
    ∀ headers, (∃ ip, call inet proxies peer headers = .ok ip) ↔
      (member peer proxies → ∀ before entry after,
        forwardedIps headers = before ++ entry :: after →
        (∀ t ∈ after, Trusted inet proxies t) → Readable entry) := by
  have hproxies : member peer proxies → proxies.isEmpty = false := by
    intro hpeer
    cases proxies with
    | nil => cases hpeer
    | cons => rfl
  refine ⟨fun hpeer headers => ?_, ?_, fun headers => ?_⟩
  · exact if_neg fun hcall => by simp [hpeer] at hcall
  · intro hpeer headers client value more c trusted ip hclient hvalue hc hip htrusted
    have hentries : ∃ rest, forwardedIps ((client ++ value) :: more) = rest ++ c :: trusted := by
      rcases hclient with rfl | hclient
      · exact ⟨[], hvalue⟩
      · obtain ⟨before, rfl⟩ := getLast?_eq_some_iff.mp hclient
        rw [append_assoc, singleton_append, forwardedIps_comma, hvalue]
        exact ⟨_, rfl⟩
    obtain ⟨rest, hrest⟩ := hentries
    rw [call, if_pos ⟨hproxies hpeer, hpeer⟩, forwardedIps_append, hrest, ← append_assoc,
      reverse_append, reverse_cons, append_assoc]
    exact resolve_trusted _ hc hip fun t ht => htrusted t (mem_reverse.mp ht)
  · by_cases hpeer : member peer proxies
    · rw [call, if_pos ⟨hproxies hpeer, hpeer⟩, exists_resolve_iff]
      constructor
      · intro h _ before entry after heq hafter
        exact h after.reverse entry before.reverse (by simp [heq])
          fun t ht => hafter t (mem_reverse.mp ht)
      · intro h passed entry rest heq hpassed
        refine h hpeer rest.reverse entry passed.reverse ?_ fun t ht => hpassed t (mem_reverse.mp ht)
        rw [← reverse_reverse (forwardedIps headers), heq]
        simp
    · rw [call, if_neg fun hcall => hpeer hcall.2]
      exact iff_of_true ⟨peer, rfl⟩ fun h => absurd h hpeer

/-- A parser that knows one address. -/
def inetClient (cs : List Char) : Option Ip := if cs = ['c'] then some (.v4 0x01020304) else none

theorem client_behind_proxies_iff_garbage :
    call inetClient [.v4 0x0A000000 0xFF000000] (.v4 0x0A000001) [[none, some ',', some 'c']] =
      .ok (.v4 0x01020304) :=
  (client_behind_proxies_iff inetClient [.v4 0x0A000000 0xFF000000] (.v4 0x0A000001)).2.1 (by decide)
    [] [none, some ','] [some 'c'] [] [some 'c'] [] _ (.inr rfl) (by decide) (by decide) (by decide)
    (by simp)

/-- A header with the single byte `0xFF`, from a trusted proxy: no parser is asked. -/
theorem invalid_byte_raises :
    call inetClient [.v4 0x0A000000 0xFF000000] (.v4 0x0A000001) [[none]] = .error () :=
  rfl

end Converger.TrustedProxies
