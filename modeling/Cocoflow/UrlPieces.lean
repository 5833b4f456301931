import Mathlib.Data.List.Basic
import Mathlib.Data.List.TakeWhile
import Cocoflow.TcpConnection
import Cocoflow.HttpResponse
import Cocoflow.UrlParse

/-!
A URL is `scheme://[user[:password]@]host[:port][/path][?query][#fragment]`. Here it is given
by its pieces, and `url_parse` is followed over the text of the pieces: its pointers come to
mark them, whatever separators are there, and the checks on the host and on the port are left.
-/

namespace Cocoflow.UrlPieces

open TcpConnection HttpResponse UrlParse

def lead (byte : Byte) : Option (List Byte) → List Byte
  | none => []
  | some bytes => byte :: bytes

@[simp] theorem lead_none (byte : Byte) : lead byte none = [] := rfl

@[simp] theorem lead_some (byte : Byte) (bytes : List Byte) :
    lead byte (some bytes) = byte :: bytes := rfl

/-- The user with a password or without one; the empty authority has an empty host. -/
structure Authority where
  user : Option (List Byte × Option (List Byte)) := none
  host : List Byte
  port : Option (List Byte) := none

namespace Authority

def login (authority : Authority) : List Byte :=
  match authority.user with
  | none => []
  | some (user, password) => user ++ lead colon password ++ [atSign]

def text (authority : Authority) : List Byte :=
  authority.login ++ authority.host ++ lead colon authority.port

def userPart (authority : Authority) : List Byte := (authority.user.map Prod.fst).getD []

def passwordPart (authority : Authority) : List Byte := (authority.user.bind Prod.snd).getD []

def portPart (authority : Authority) : List Byte := authority.port.getD []

end Authority

structure Pieces where
  scheme : List Byte
  authority : Authority
  path : Option (List Byte) := none
  query : Option (List Byte) := none
  fragment : Option (List Byte) := none

def Plain (bytes : List Byte) : Prop :=
  ∀ byte ∈ bytes, isHostEnd byte = false ∧ byte ≠ colon ∧ byte ≠ atSign

/-- Neither the final NUL nor one of `stops`. -/
def Free (stops bytes : List Byte) : Prop := ∀ byte ∈ bytes, byte ≠ 0 ∧ byte ∉ stops

instance (bytes : List Byte) : Decidable (Plain bytes) := List.decidableBAll _ bytes

instance (stops bytes : List Byte) : Decidable (Free stops bytes) := List.decidableBAll _ bytes

namespace Pieces

def tail (pieces : Pieces) : List Byte :=
  lead slash pieces.path ++ (lead question pieces.query ++ lead hash pieces.fragment)

def text (pieces : Pieces) : List Byte :=
  pieces.scheme ++ (colon :: slash :: slash :: (pieces.authority.text ++ pieces.tail))

structure Split (pieces : Pieces) : Prop where
  scheme : pieces.scheme ≠ []
  schemeChars : ∀ byte ∈ pieces.scheme, isProtocol byte
  user : Plain pieces.authority.userPart
  password : Plain pieces.authority.passwordPart
  host : Plain pieces.authority.host
  port : Plain pieces.authority.portPart
  path : Free [question, hash] (pieces.path.getD [])
  query : Free [hash] (pieces.query.getD [])
  fragment : Free [] (pieces.fragment.getD [])

structure WellFormed (pieces : Pieces) : Prop extends Split pieces where
  hostChars : ∀ byte ∈ pieces.authority.host, isHost byte
  portChars : ∀ byte ∈ pieces.authority.portPart, isDigit byte
  portValue : pieces.authority.portPart ≠ [] →
    1 ≤ atoi pieces.authority.portPart ∧ atoi pieces.authority.portPart ≤ 65535

/-- The outputs; an absent part is empty, an absent path is a slash. -/
def parts (pieces : Pieces) : Parts where
  protocol := pieces.scheme.map lowercase
  user := pieces.authority.userPart
  password := pieces.authority.passwordPart
  host := pieces.authority.host.map lowercase
  port := if pieces.authority.portPart = [] then 0 else atoi pieces.authority.portPart
  path := slash :: pieces.path.getD []
  query := pieces.query.getD []
  comment := pieces.fragment.getD []

end Pieces

section Reads

variable {url front rest seg : List Byte} {byte : Byte} {p stop : Nat} {code : Int}
  {parts : Parts} {marks next : Marks}

@[simp] theorem pure_bind_parse {α β : Type} (value : α) (next : α → Parse β) :
    ((pure value : Parse α) >>= next) = next value := rfl

@[simp] theorem throw_bind {α β : Type} (failure : Int × Parts) (next : α → Parse β) :
    ((throw failure : Parse α) >>= next) = throw failure := rfl

theorem fetch_front (at_end : p = front.length) :
    fetch (front ++ byte :: rest) p = pure byte := by
  subst at_end
  simp [fetch]

theorem range_of (before after : List Byte) (cut : url = before ++ (seg ++ after))
    (first : p = before.length) (last : stop = p + seg.length) :
    range url (some p) (some stop) = pure seg := by
  subst cut first last
  have fits : before.length ≤ before.length + seg.length ∧
      before.length + seg.length ≤ (before ++ (seg ++ after)).length := by simp
  have taken : ((before ++ (seg ++ after)).take (before.length + seg.length)).drop
      before.length = seg := by
    rw [List.take_length_add_append, List.drop_left, List.take_left]
  simp only [range, if_pos fits, taken]

theorem seek_stop (stops : List Byte) (free : Free stops seg)
    (last : byte = 0 ∨ byte ∈ stops) :
    seek stops p (seg ++ byte :: rest) = pure (p + seg.length) := by
  induction seg generalizing p with
  | nil => simp [seek, last]
  | cons first others ih =>
      have apart := free first (by simp)
      rw [List.cons_append, seek, if_neg (by simp [apart]),
        ih fun byte member => free byte (by simp [member])]
      simp only [List.length_cons]
      congr 1
      omega

theorem protocolEnd_skip (chars : ∀ byte ∈ seg, isProtocol byte) :
    protocolEnd p (seg ++ rest) = protocolEnd (p + seg.length) rest := by
  induction seg generalizing p with
  | nil => simp
  | cons first others ih =>
      have char : isProtocol first = true := chars first (by simp)
      have apart : ¬(first = 0 ∨ first = colon) := by
        rintro (rfl | rfl) <;> revert char <;> decide
      rw [List.cons_append, protocolEnd, if_neg apart, if_pos char,
        ih fun byte member => chars byte (by simp [member])]
      simp only [List.length_cons]
      congr 1
      omega

theorem authorityEnd_skip (plain : Plain seg) :
    authorityEnd parts marks p (seg ++ rest) =
      authorityEnd parts marks (p + seg.length) rest := by
  induction seg generalizing p with
  | nil => simp
  | cons first others ih =>
      obtain ⟨inside, colonless, atless⟩ := plain first (by simp)
      rw [List.cons_append, authorityEnd, if_neg (by simp [inside]), if_neg colonless,
        if_neg atless, ih fun byte member => plain byte (by simp [member])]
      simp only [List.length_cons]
      congr 1
      omega

theorem to_end (plain : Plain seg) (ending : isHostEnd byte = true) :
    authorityEnd parts marks p (seg ++ byte :: rest) =
      pure (p + seg.length, marks.close (p + seg.length)) := by
  rw [authorityEnd_skip plain, authorityEnd, if_pos ending]

theorem to_colon (plain : Plain seg) (met : marks.metColon (p + seg.length) = .ok next) :
    authorityEnd parts marks p (seg ++ colon :: rest) =
      authorityEnd parts next (p + seg.length + 1) rest := by
  rw [authorityEnd_skip plain, authorityEnd, if_neg (by decide), if_pos rfl, met]

theorem to_at (plain : Plain seg) (met : marks.metAt (p + seg.length) = .ok next) :
    authorityEnd parts marks p (seg ++ atSign :: rest) =
      authorityEnd parts next (p + seg.length + 1) rest := by
  rw [authorityEnd_skip plain, authorityEnd, if_neg (by decide), if_neg (by decide),
    if_pos rfl, met]

theorem stops_colon (plain : Plain seg) (met : marks.metColon (p + seg.length) = .error code) :
    authorityEnd parts marks p (seg ++ colon :: rest) = throw (code, parts) := by
  rw [authorityEnd_skip plain, authorityEnd, if_neg (by decide), if_pos rfl, met]

theorem stops_at (plain : Plain seg) (met : marks.metAt (p + seg.length) = .error code) :
    authorityEnd parts marks p (seg ++ atSign :: rest) = throw (code, parts) := by
  rw [authorityEnd_skip plain, authorityEnd, if_neg (by decide), if_neg (by decide),
    if_pos rfl, met]

theorem cut_before (stops : Byte → Bool) (found : ∃ byte ∈ url, stops byte = true) :
    ∃ seg byte rest, url = seg ++ byte :: rest ∧ stops byte = true ∧
      ∀ other ∈ seg, stops other = false := by
  have some := List.find?_isSome.mpr found
  obtain ⟨byte, here⟩ := Option.isSome_iff_exists.mp some
  obtain ⟨stopped, seg, rest, split, before⟩ := List.find?_eq_some_iff_append.mp here
  exact ⟨seg, byte, rest, split, stopped, by simpa using before⟩

end Reads

section Authority

variable {url front rest : List Byte} {byte : Byte} {p : Nat} {parts : Parts}

def Authority.append (authority : Authority) (parts : Parts) : Parse Parts := do
  let parts ← appendHost
    { parts with user := authority.userPart, password := authority.passwordPart } authority.host
  appendPort parts authority.portPart authority.portPart

theorem atoi_ended {digits : List Byte} (numeric : digits.all isDigit = true)
    (ending : isHostEnd byte = true) : atoi (digits ++ byte :: rest) = atoi digits := by
  have ended : isDigit byte = false := by
    simp only [isHostEnd, Bool.or_eq_true, beq_iff_eq] at ending
    rcases ending with ((rfl | rfl) | rfl) | rfl <;> decide
  have all : ∀ other ∈ digits, isDigit other = true := by simpa using numeric
  have same : (digits ++ byte :: rest).takeWhile isDigit = digits.takeWhile isDigit := by
    rw [List.takeWhile_append_of_pos all, List.takeWhile_cons_of_neg (by simp [ended]),
      List.append_nil, List.takeWhile_eq_self_iff.mpr all]
  unfold atoi
  exact congrArg (fun taken => Int.bmod ↑(min (decimal taken) (2 ^ 63 - 1)) (2 ^ 32)) same

theorem appendPort_ended {digits bytes : List Byte} (ending : isHostEnd byte = true)
    (behind : digits ≠ [] → bytes = digits ++ byte :: rest) :
    appendPort parts digits bytes = appendPort parts digits digits := by
  unfold appendPort
  by_cases empty : digits = []
  · simp only [empty, ↓reduceIte]
  · by_cases numeric : digits.all isDigit = true
    · simp only [empty, numeric, behind empty, atoi_ended numeric ending, ↓reduceIte]
    · simp only [empty, numeric, Bool.false_eq_true, ↓reduceIte]

theorem authorityParts_ranges {authority : Authority} {marks : Marks} (rest : List Byte)
    (user : range url marks.userBgn marks.userEnd = pure authority.userPart)
    (password : range url marks.passBgn marks.passEnd = pure authority.passwordPart)
    (host : range url marks.hostBgn marks.hostEnd = pure authority.host)
    (port : range url marks.portBgn marks.portEnd = pure authority.portPart)
    (ending : isHostEnd byte = true)
    (behind : authority.portPart ≠ [] →
      url.drop (marks.portBgn.getD 0) = authority.portPart ++ byte :: rest) :
    authorityParts url marks parts = authority.append parts := by
  simp only [authorityParts, user, password, host, port, pure_bind_parse, Authority.append]
  exact bind_congr fun _ => appendPort_ended ending behind

theorem host_read (front rest : List Byte) (marks : Marks) {host : List Byte}
    {port : Option (List Byte)} {start : Nat}
    (user : marks.userBgn = some start) (earlier : start < p) (ended : marks.userEnd ≠ none)
    (passed : marks.passBgn = none ∨ marks.passEnd ≠ none) (bgn : marks.hostBgn = some p)
    (open_ : marks.hostEnd = none) (portless : marks.portBgn = none)
    (plainHost : Plain host) (plainPort : Plain (port.getD []))
    (ending : isHostEnd byte = true) (first : p = front.length) (before : Parts) :
    ∃ portBgn portEnd,
      authorityEnd before marks p (host ++ (lead colon port ++ byte :: rest)) =
        pure (p + (host ++ lead colon port).length,
          { marks with
            hostEnd := some (p + host.length), portBgn := portBgn, portEnd := portEnd }) ∧
      range (front ++ (host ++ (lead colon port ++ byte :: rest))) portBgn portEnd =
        pure (port.getD []) ∧
      (port.getD [] ≠ [] →
        (front ++ (host ++ (lead colon port ++ byte :: rest))).drop (portBgn.getD 0) =
          port.getD [] ++ byte :: rest) := by
  have inside (stop : Nat) : marks.userBgn ≠ some (p + stop) := by
    rw [user]
    simp
    omega
  have closed : ¬(marks.passBgn ≠ none ∧ marks.passEnd = none) := by
    rcases passed with none | some <;> simp_all
  cases port with
  | none =>
      refine ⟨none, marks.portEnd, ?_, rfl, absurd rfl⟩
      simp only [lead_none, List.nil_append, List.append_nil]
      rw [to_end plainHost ending, Marks.close, if_neg (inside _), if_neg ended, if_neg closed,
        if_pos open_, portless]
  | some port =>
      replace plainPort : Plain port := plainPort
      refine ⟨some (p + host.length + 1), some (p + host.length + 1 + port.length), ?_, ?_, ?_⟩
      · have met : marks.metColon (p + host.length) = .ok { marks with
            hostEnd := some (p + host.length), portBgn := some (p + host.length + 1) } := by
          simp [Marks.metColon, bgn, open_]
        have later := inside (host.length + 1 + port.length)
        simp only [← Nat.add_assoc] at later
        simp only [lead_some, List.cons_append]
        rw [to_colon plainHost met, to_end plainPort ending, Marks.close, if_neg later,
          if_neg ended, if_neg closed, if_neg (by simp)]
        simp [Nat.add_assoc, Nat.add_comm 1]
      · refine range_of (front ++ (host ++ [colon])) (byte :: rest) ?_ ?_ rfl <;>
          simp [ first, Nat.add_assoc]
      · intro _
        simp [ first, Nat.add_assoc]

structure Plains (authority : Authority) : Prop where
  user : Plain authority.userPart
  password : Plain authority.passwordPart
  host : Plain authority.host
  port : Plain authority.portPart

/-- Whatever the order of the separators, the pointers come to mark the parts. -/
theorem authority_read (rest : List Byte) (authority : Authority) (plains : Plains authority)
    (ending : isHostEnd byte = true) (first : p = front.length) (parts before : Parts) :
    ∃ marks, authorityEnd before { userBgn := some p } p (authority.text ++ byte :: rest) =
        pure (p + authority.text.length, marks) ∧
      authorityParts (front ++ (authority.text ++ byte :: rest)) marks parts =
        authority.append parts := by
  obtain ⟨user, host, port⟩ := authority
  obtain ⟨plainUser, plainPassword, plainHost, plainPort⟩ := plains
  simp only [Authority.userPart, Authority.passwordPart, Authority.portPart] at *
  rcases user with - | ⟨user, - | password⟩
  · -- No login: a colon has begun a password that turns out to be the port.
    simp only [Authority.text, Authority.login, List.nil_append, List.append_assoc]
    cases port with
    | none =>
        simp only [lead_none, List.nil_append, List.append_nil]
        by_cases empty : host = []
        · subst empty
          refine ⟨{}, ?_, authorityParts_ranges rest rfl rfl rfl rfl ending (absurd rfl)⟩
          rw [to_end plainHost ending]
          simp [Marks.close]
        · refine ⟨{ hostBgn := some p, hostEnd := some (p + host.length) }, ?_,
            authorityParts_ranges rest rfl rfl ?_ rfl ending (absurd rfl)⟩
          · rw [to_end plainHost ending]
            simp [Marks.close, empty]
          · exact range_of front _ rfl first rfl
    | some port =>
        replace plainPort : Plain port := plainPort
        refine ⟨{ userEnd := some (p + host.length)
                  hostBgn := some p, hostEnd := some (p + host.length)
                  portBgn := some (p + host.length + 1)
                  portEnd := some (p + host.length + 1 + port.length) }, ?_, ?_⟩
        · simp only [lead_some, List.cons_append]
          rw [to_colon plainHost rfl, to_end plainPort ending]
          simp [Marks.close, Nat.add_assoc, Nat.add_comm 1]
        · refine authorityParts_ranges rest rfl rfl ?_ ?_ ending fun _ => ?_
          · exact range_of front _ rfl first rfl
          · refine range_of (front ++ (host ++ [colon])) (byte :: rest) ?_ ?_ rfl <;>
              simp [first, Authority.portPart, Nat.add_assoc]
          · simp [Authority.portPart, first, Nat.add_assoc]
  · replace plainUser : Plain user := plainUser
    simp only [Authority.text, Authority.login, lead_none, List.append_nil, List.append_assoc,
      List.cons_append, List.nil_append]
    obtain ⟨portBgn, portEnd, walked, ported, behind⟩ := host_read (front ++ (user ++ [atSign]))
      rest { userBgn := some p, userEnd := some (p + user.length)
             hostBgn := some (p + user.length + 1) }
      rfl (by omega) (by simp) (Or.inl rfl) rfl rfl rfl plainHost plainPort ending
      (by simp [first, Nat.add_assoc]) before
    simp only [List.append_assoc, List.cons_append, List.nil_append] at ported behind
    refine ⟨{ userBgn := some p, userEnd := some (p + user.length)
              hostBgn := some (p + user.length + 1)
              hostEnd := some (p + user.length + 1 + host.length)
              portBgn := portBgn, portEnd := portEnd }, ?_, ?_⟩
    · rw [to_at plainUser rfl, walked]
      exact congrArg (fun stop => pure (stop, _)) (by simp; omega)
    · refine authorityParts_ranges rest ?_ rfl ?_ ported ending behind
      · exact range_of front _ rfl first rfl
      · refine range_of (front ++ (user ++ [atSign])) _ (by simp; rfl) ?_ rfl
        simp [first, Nat.add_assoc]
  · replace plainUser : Plain user := plainUser
    replace plainPassword : Plain password := plainPassword
    simp only [Authority.text, Authority.login, lead_some, List.append_assoc,
      List.cons_append, List.nil_append]
    obtain ⟨portBgn, portEnd, walked, ported, behind⟩ := host_read
      (front ++ (user ++ (colon :: password ++ [atSign])))
      rest { userBgn := some p, userEnd := some (p + user.length)
             passBgn := some (p + user.length + 1)
             passEnd := some (p + user.length + 1 + password.length)
             hostBgn := some (p + user.length + 1 + password.length + 1) }
      rfl (by omega) (by simp) (Or.inr (by simp)) rfl rfl rfl plainHost plainPort ending
      (by simp [first, Nat.add_assoc]; omega) before
    simp only [List.append_assoc, List.cons_append, List.nil_append] at ported behind
    refine ⟨{ userBgn := some p, userEnd := some (p + user.length)
              passBgn := some (p + user.length + 1)
              passEnd := some (p + user.length + 1 + password.length)
              hostBgn := some (p + user.length + 1 + password.length + 1)
              hostEnd := some (p + user.length + 1 + password.length + 1 + host.length)
              portBgn := portBgn, portEnd := portEnd }, ?_, ?_⟩
    · rw [to_colon plainUser rfl, to_at plainPassword rfl, walked]
      exact congrArg (fun stop => pure (stop, _)) (by simp; omega)
    · refine authorityParts_ranges rest ?_ ?_ ?_ ported ending behind
      · exact range_of front _ rfl first rfl
      · refine range_of (front ++ (user ++ [colon])) _ (by simp; rfl) ?_ rfl
        simp [first, Nat.add_assoc]
      · refine range_of (front ++ (user ++ (colon :: password ++ [atSign]))) _ (by simp; rfl)
          ?_ rfl
        simp [first, Nat.add_assoc]
        omega

end Authority

section Tail

variable {front rest : List Byte} {p : Nat} {path query fragment : Option (List Byte)}

def bgnAt (part : Option (List Byte)) (p : Nat) : Option Nat := part.map fun _ => p + 1

theorem comment_ends (fragment : Option (List Byte)) : ∃ byte rest,
    lead hash fragment ++ [0] = byte :: rest ∧ (byte = 0 ∨ byte = hash) ∧
      ∀ p, noteBgn byte p = bgnAt fragment p := by
  cases fragment with
  | none => exact ⟨0, [], rfl, Or.inl rfl, fun _ => rfl⟩
  | some bytes => exact ⟨hash, bytes ++ [0], rfl, Or.inr rfl, fun _ => rfl⟩

theorem path_ends (query fragment : Option (List Byte)) : ∃ byte rest,
    lead question query ++ (lead hash fragment ++ [0]) = byte :: rest ∧
      byte ≠ slash ∧ (byte = 0 ∨ byte ∈ [question, hash]) ∧
      ∀ p, qstrBgn byte p = bgnAt query p ∧
        noteBgn byte p = if query = none then bgnAt fragment p else none := by
  cases query with
  | none =>
      obtain ⟨byte, rest, split, kind, note⟩ := comment_ends fragment
      refine ⟨byte, rest, split, ?_, ?_, fun p => ⟨?_, note p⟩⟩ <;>
        rcases kind with rfl | rfl <;> first | rfl | decide
  | some bytes =>
      exact ⟨question, bytes ++ (lead hash fragment ++ [0]), rfl, by decide, by decide,
        fun _ => ⟨rfl, rfl⟩⟩

theorem pathPart_read (query fragment : Option (List Byte))
    (free : Free [question, hash] (path.getD [])) (first : p = front.length) :
    pathPart (front ++ (lead slash path ++
        (lead question query ++ (lead hash fragment ++ [0])))) p =
      pure (lead slash path, p + (lead slash path).length,
        bgnAt query (p + (lead slash path).length),
        if query = none then bgnAt fragment (p + (lead slash path).length) else none) := by
  obtain ⟨byte, rest, split, other, stops, marks⟩ := path_ends query fragment
  rw [split]
  cases path with
  | none =>
      obtain ⟨qstr, note⟩ := marks p
      simp only [lead_none, List.nil_append, List.length_nil, Nat.add_zero, pathPart,
        fetch_front first, pure_bind_parse, if_neg other, qstr, note]
  | some bytes =>
      obtain ⟨qstr, note⟩ := marks (p + (slash :: bytes).length)
      have whole : Free [question, hash] (slash :: bytes) := by
        intro found member
        rcases List.mem_cons.mp member with rfl | inside
        · decide
        · exact free found inside
      have behind : (front ++ (slash :: bytes ++ byte :: rest)).drop p =
          slash :: bytes ++ byte :: rest := by rw [first, List.drop_left]
      have last : fetch (front ++ (slash :: bytes ++ byte :: rest))
          (p + (slash :: bytes).length) = pure byte := by
        rw [← List.append_assoc]
        exact fetch_front (by simp [first])
      have start : fetch (front ++ (slash :: bytes ++ byte :: rest)) p = pure slash :=
        fetch_front first
      simp only [lead_some, pathPart, start, pure_bind_parse, if_pos, behind,
        seek_stop _ whole stops, range_of front (byte :: rest) rfl first rfl, last, qstr, note]

theorem queryPart_read (front : List Byte) (fragment : Option (List Byte))
    (free : Free [hash] (query.getD [])) (first : p = front.length) :
    queryPart (front ++ (lead question query ++ (lead hash fragment ++ [0]))) p
        (bgnAt query p) (if query = none then bgnAt fragment p else none) =
      pure (query.getD [], p + (lead question query).length,
        bgnAt fragment (p + (lead question query).length)) := by
  cases query with
  | none => rfl
  | some bytes =>
      obtain ⟨byte, rest, split, stops, note⟩ := comment_ends fragment
      rw [split]
      have whole : Free [hash] (question :: bytes) := by
        intro found member
        rcases List.mem_cons.mp member with rfl | inside
        · decide
        · exact free found inside
      have behind : (front ++ (question :: bytes ++ byte :: rest)).drop p =
          question :: bytes ++ byte :: rest := by rw [first, List.drop_left]
      have last : fetch (front ++ (question :: bytes ++ byte :: rest))
          (p + (question :: bytes).length) = pure byte := by
        rw [← List.append_assoc]
        exact fetch_front (by simp [first])
      have cut : range (front ++ (question :: bytes ++ byte :: rest)) (some (p + 1))
          (some (p + (question :: bytes).length)) = pure bytes :=
        range_of (front ++ [question]) (byte :: rest) (by simp) (by simp [first])
          (by simp; omega)
      have ends : (if byte = hash then some (p + (question :: bytes).length + 1) else none) =
          bgnAt fragment (p + (question :: bytes).length) := note _
      simp only [lead_some, queryPart, bgnAt, Option.map_some, reduceCtorEq, if_false, behind,
        seek_stop _ whole (by simpa using stops), pure_bind_parse, cut, last, ends,
        Option.getD_some]

theorem commentPart_read (front : List Byte) (free : Free [] (fragment.getD [])) (first : p = front.length) :
    commentPart (front ++ (lead hash fragment ++ [0])) p (bgnAt fragment p) =
      pure (fragment.getD []) := by
  cases fragment with
  | none => rfl
  | some bytes =>
      have whole : Free [] (hash :: bytes) := by
        intro found member
        rcases List.mem_cons.mp member with rfl | inside
        · decide
        · exact free found inside
      have behind : (front ++ (hash :: bytes ++ [0])).drop p = hash :: bytes ++ [0] := by
        rw [first, List.drop_left]
      have cut : range (front ++ (hash :: bytes ++ [0])) (some (p + 1))
          (some (p + (hash :: bytes).length)) = pure bytes :=
        range_of (front ++ [hash]) [0] (by simp) (by simp [first]) (by simp; omega)
      simp only [lead_some, commentPart, bgnAt, Option.map_some, reduceCtorEq, if_false, behind,
        seek_stop _ whole (Or.inl rfl), pure_bind_parse, cut, Option.getD_some]

theorem tail_read (front : List Byte) (pieces : Pieces)
    (path : Free [question, hash] (pieces.path.getD []))
    (query : Free [hash] (pieces.query.getD [])) (fragment : Free [] (pieces.fragment.getD []))
    (first : p = front.length) (parts : Parts) :
    tailParts (front ++ (pieces.tail ++ [0])) p parts = pure { parts with
      path := slash :: pieces.path.getD []
      query := pieces.query.getD []
      comment := pieces.fragment.getD [] } := by
  have pathRead := pathPart_read pieces.query pieces.fragment path first
  have queryRead := queryPart_read (front ++ lead slash pieces.path) pieces.fragment query
    (p := p + (lead slash pieces.path).length) (by simp [first])
  have commentRead := commentPart_read
    (front ++ (lead slash pieces.path ++ lead question pieces.query)) fragment
    (p := p + (lead slash pieces.path).length + (lead question pieces.query).length)
    (by simp [first, Nat.add_assoc])
  have slashed : (if lead slash pieces.path = [] then [slash] else lead slash pieces.path) =
      slash :: pieces.path.getD [] := by
    cases pieces.path <;> rfl
  simp only [List.append_assoc] at queryRead commentRead
  simp only [tailParts, Pieces.tail, List.append_assoc, pathRead, pure_bind_parse, queryRead,
    commentRead, slashed]

end Tail

section Parse

variable {url : List Byte} {pieces : Pieces}

def Pieces.outcome (pieces : Pieces) : Parse Parts := do
  let parts ← pieces.authority.append { protocol := pieces.scheme.map lowercase }
  pure { parts with
    path := slash :: pieces.path.getD []
    query := pieces.query.getD []
    comment := pieces.fragment.getD [] }

theorem tail_begins (pieces : Pieces) :
    ∃ byte rest, pieces.tail ++ [0] = byte :: rest ∧ isHostEnd byte = true := by
  obtain ⟨byte, rest, split, -, ends, -⟩ := path_ends pieces.query pieces.fragment
  unfold Pieces.tail
  rw [List.append_assoc, List.append_assoc]
  cases pieces.path with
  | none =>
      refine ⟨byte, rest, split, ?_⟩
      simp only [List.mem_cons, List.not_mem_nil, or_false] at ends
      rcases ends with rfl | rfl | rfl <;> decide
  | some bytes => exact ⟨slash, bytes ++ _, rfl, by decide⟩

theorem urlParse_opened {scheme more : List Byte}
    (chars : ∀ byte ∈ scheme, isProtocol byte = true) (present : scheme ≠ []) :
    urlParse (scheme ++ colon :: slash :: slash :: more) = (do
      let (p, marks) ← authorityEnd { protocol := scheme.map lowercase }
        { userBgn := some (scheme.length + 3) } (scheme.length + 3) more
      let parts ← authorityParts (scheme ++ colon :: slash :: slash :: more) marks
        { protocol := scheme.map lowercase }
      tailParts (scheme ++ colon :: slash :: slash :: more) p parts) := by
  have walked : protocolEnd 0 (scheme ++ colon :: slash :: slash :: more) =
      pure scheme.length := by
    rw [protocolEnd_skip chars, Nat.zero_add, protocolEnd, if_pos (Or.inr rfl)]
  have found : fetch (scheme ++ colon :: slash :: slash :: more) scheme.length = pure colon :=
    fetch_front rfl
  have slashed : slashes (scheme ++ colon :: slash :: slash :: more) scheme.length =
      pure true := by
    have first : fetch (scheme ++ colon :: slash :: slash :: more) (scheme.length + 1) =
        pure slash := by
      rw [List.append_cons]
      exact fetch_front (by simp)
    have second : fetch (scheme ++ colon :: slash :: slash :: more) (scheme.length + 2) =
        pure slash := by
      rw [List.append_cons, List.append_cons]
      exact fetch_front (by simp)
    simp only [slashes, first, second, pure_bind_parse]
    rfl
  have protocol : (scheme ++ colon :: slash :: slash :: more).take scheme.length = scheme :=
    List.take_left
  have dropped : (scheme ++ colon :: slash :: slash :: more).drop (scheme.length + 3) = more := by
    rw [List.drop_length_add_append]
    rfl
  have onward : ¬(colon = 0 ∨ scheme.length = 0) := by
    rintro (zero | none)
    · exact absurd zero (by decide)
    · exact present (List.length_eq_zero_iff.mp none)
  simp only [urlParse, walked, found, slashed, protocol, dropped, pure_bind_parse,
    if_neg onward, Bool.not_true, Bool.false_eq_true, if_false]

theorem urlParse_split (split : pieces.Split) :
    urlParse (pieces.text ++ [0]) = pieces.outcome := by
  obtain ⟨byte, rest, tail, ending⟩ := tail_begins pieces
  have plains : Plains pieces.authority :=
    ⟨split.user, split.password, split.host, split.port⟩
  have opened : pieces.text ++ [0] = pieces.scheme ++ colon :: slash :: slash ::
      (pieces.authority.text ++ (pieces.tail ++ [0])) := by
    simp [Pieces.text]
  have behind : pieces.scheme ++ colon :: slash :: slash ::
      (pieces.authority.text ++ (pieces.tail ++ [0])) =
        (pieces.scheme ++ [colon, slash, slash]) ++
          (pieces.authority.text ++ (pieces.tail ++ [0])) := by
    simp
  have extent : pieces.scheme.length + 3 = (pieces.scheme ++ [colon, slash, slash]).length := by
    simp
  obtain ⟨marks, walked, authorityRead⟩ :=
    authority_read rest pieces.authority plains ending extent
      { protocol := pieces.scheme.map lowercase } { protocol := pieces.scheme.map lowercase }
  have tailRead (parts : Parts) :=
    tail_read ((pieces.scheme ++ [colon, slash, slash]) ++ pieces.authority.text) pieces
      split.path split.query split.fragment
      (p := pieces.scheme.length + 3 + pieces.authority.text.length) (by simp; omega) parts
  rw [← tail] at walked authorityRead
  rw [List.append_assoc (pieces.scheme ++ _)] at tailRead
  rw [← behind] at authorityRead tailRead
  rw [opened, urlParse_opened split.schemeChars split.scheme]
  simp only [walked, pure_bind_parse, authorityRead, tailRead]
  rfl

theorem throw_ne_pure {α : Type} {failure : Int × Parts} {value : α} :
    (throw failure : Parse α) ≠ pure value := by
  intro same
  cases same

theorem pure_inj {α : Type} {first second : α} :
    (pure first : Parse α) = pure second ↔ first = second := by
  constructor
  · intro same
    cases same
    rfl
  · exact congrArg pure

theorem outcome_returns (pieces : Pieces) :
    ∃ result, pieces.outcome = ExceptT.mk (some result) := by
  unfold Pieces.outcome Authority.append appendHost
  split
  · rw [pure_bind_parse]
    unfold appendPort
    split
    · exact ⟨.ok _, rfl⟩
    · split
      · dsimp only
        split
        · exact ⟨.error _, rfl⟩
        · exact ⟨.ok _, rfl⟩
      · exact ⟨.error _, rfl⟩
  · exact ⟨.error _, rfl⟩

theorem outcome_iff {parts : Parts} : pieces.outcome = pure parts ↔
    ((∀ byte ∈ pieces.authority.host, isHost byte = true) ∧
      (∀ byte ∈ pieces.authority.portPart, isDigit byte = true) ∧
      (pieces.authority.portPart ≠ [] → 1 ≤ atoi pieces.authority.portPart ∧
        atoi pieces.authority.portPart ≤ 65535)) ∧ pieces.parts = parts := by
  rw [← List.all_eq_true, ← List.all_eq_true]
  unfold Pieces.outcome Authority.append appendHost Pieces.parts
  by_cases host : pieces.authority.host.all isHost = true
  · simp only [host, if_true, pure_bind_parse, true_and]
    unfold appendPort
    by_cases empty : pieces.authority.portPart = []
    · simp only [empty, if_true, pure_bind_parse, pure_inj, List.all_nil, true_and, ne_eq,
        not_true_eq_false, false_implies]
    · by_cases numeric : pieces.authority.portPart.all isDigit = true
      · simp only [empty, numeric, if_true, if_false, true_and, ne_eq, not_false_eq_true,
          forall_const]
        by_cases value : atoi pieces.authority.portPart ≤ 0 ∨
            65535 < atoi pieces.authority.portPart
        · have outside : ¬(1 ≤ atoi pieces.authority.portPart ∧
              atoi pieces.authority.portPart ≤ 65535) := by omega
          simp only [value, outside, if_true, throw_bind, throw_ne_pure, false_and]
        · have inside : 1 ≤ atoi pieces.authority.portPart ∧
              atoi pieces.authority.portPart ≤ 65535 := by omega
          simp only [value, inside, if_false, pure_bind_parse, pure_inj, true_and]
      · simp only [empty, numeric, Bool.false_eq_true, if_false, throw_bind, throw_ne_pure,
          false_and]
  · simp only [host, Bool.false_eq_true, if_false, throw_bind, throw_ne_pure, false_and]

end Parse

end Cocoflow.UrlPieces
