import Mathlib.Data.List.Basic
import Mathlib.Data.List.TakeWhile
import Cocoflow.TcpConnection
import Cocoflow.HttpResponse
import Cocoflow.UrlParse
import Cocoflow.UrlPieces

/-!
The strings that `url_parse` takes. Every string is cut along its separators into the pieces
of a URL or has a place where the parse returns a code; no read goes behind the NUL.
-/

namespace Cocoflow.UrlGrammar

open TcpConnection HttpResponse UrlParse UrlPieces

section Cuts

variable {left : List Byte} {p : Nat}

theorem plain_cut (ends : (0 : Byte) ∈ left) : ∃ seg byte rest, left = seg ++ byte :: rest ∧
    Plain seg ∧ (isHostEnd byte = true ∨
      (byte = colon ∨ byte = atSign) ∧ (0 : Byte) ∈ rest) := by
  obtain ⟨seg, byte, rest, rfl, stopped, before⟩ := cut_before
    (fun byte => isHostEnd byte || byte == colon || byte == atSign) ⟨0, ends, by decide⟩
  simp only [Bool.or_eq_true, beq_iff_eq, Bool.or_eq_false_iff, beq_eq_false_iff_ne] at *
  have plain : Plain seg := fun other member =>
    ⟨(before other member).1.1, (before other member).1.2, (before other member).2⟩
  refine ⟨seg, byte, rest, rfl, plain, ?_⟩
  by_cases ending : isHostEnd byte = true
  · exact Or.inl ending
  · have kind : byte = colon ∨ byte = atSign := by
      rcases stopped with (ended | found) | found
      · exact absurd ended ending
      · exact Or.inl found
      · exact Or.inr found
    refine Or.inr ⟨kind, ?_⟩
    rcases List.mem_append.mp ends with inside | behind
    · exact absurd (plain 0 inside).1 (by decide)
    · rcases List.mem_cons.mp behind with rfl | later
      · exact absurd (by decide) ending
      · exact later

theorem host_cut (marks : Marks) (ended : marks.userEnd ≠ none)
    (passed : marks.passBgn = none ∨ marks.passEnd ≠ none) (bgn : marks.hostBgn ≠ none)
    (open_ : marks.hostEnd = none) (before : Parts) (ends : (0 : Byte) ∈ left) :
    (∃ host port byte rest, left = host ++ (lead colon port ++ byte :: rest) ∧ Plain host ∧
      Plain (port.getD []) ∧ isHostEnd byte = true) ∨
    ∃ failure, authorityEnd before marks p left = throw failure := by
  have closed : ¬(marks.passBgn ≠ none ∧ marks.passEnd = none) := by
    rcases passed with none | some <;> simp_all
  have refused (stop : Nat) : marks.metAt stop = .error (-6) := by
    rw [Marks.metAt, if_neg ended, if_neg closed]
  obtain ⟨host, byte, rest, rfl, plainHost, ending | ⟨rfl | rfl, onward⟩⟩ := plain_cut ends
  · refine Or.inl ⟨host, none, byte, rest, rfl, plainHost, ?_, ending⟩
    simp [Plain]
  · have met : marks.metColon (p + host.length) = .ok { marks with
        hostEnd := some (p + host.length), portBgn := some (p + host.length + 1) } := by
      rw [Marks.metColon, if_neg bgn, if_pos open_]
    rw [to_colon plainHost met]
    obtain ⟨port, byte, rest, rfl, plainPort, ending | ⟨rfl | rfl, -⟩⟩ := plain_cut onward
    · exact Or.inl ⟨host, some port, byte, rest, rfl, plainHost, plainPort, ending⟩
    · refine Or.inr ⟨(-5, before), stops_colon plainPort ?_⟩
      rw [Marks.metColon, if_neg bgn, if_neg (by simp)]
    · refine Or.inr ⟨(-6, before), stops_at plainPort ?_⟩
      rw [Marks.metAt, if_neg ended, if_neg closed]
  · exact Or.inr ⟨_, stops_at plainHost (refused _)⟩

theorem authority_cut (p : Nat) (before : Parts) (ends : (0 : Byte) ∈ left) :
    (∃ authority byte rest, left = authority.text ++ byte :: rest ∧ Plains authority ∧
      isHostEnd byte = true) ∨
    ∃ failure, authorityEnd before { userBgn := some p } p left = throw failure := by
  have nothing : Plain [] := by simp [Plain]
  obtain ⟨first, byte, rest, rfl, plainFirst, ending | ⟨rfl | rfl, onward⟩⟩ := plain_cut ends
  · refine Or.inl ⟨{ host := first }, byte, rest, ?_, ⟨nothing, nothing, plainFirst, nothing⟩,
      ending⟩
    simp [Authority.text, Authority.login]
  · rw [to_colon plainFirst rfl]
    obtain ⟨second, byte, rest, rfl, plainSecond, ending | ⟨rfl | rfl, further⟩⟩ := plain_cut onward
    · refine Or.inl ⟨{ host := first, port := some second }, byte, rest, ?_,
        ⟨nothing, nothing, plainFirst, plainSecond⟩, ending⟩
      simp [Authority.text, Authority.login]
    · exact Or.inr ⟨_, stops_colon plainSecond rfl⟩
    · rw [to_at plainSecond rfl]
      rcases host_cut (p := p + first.length + 1 + second.length + 1)
          { userBgn := some p, userEnd := some (p + first.length)
            passBgn := some (p + first.length + 1)
            passEnd := some (p + first.length + 1 + second.length)
            hostBgn := some (p + first.length + 1 + second.length + 1) }
          (by simp) (Or.inr (by simp)) (by simp) rfl before further with
        ⟨host, port, byte, rest, rfl, plainHost, plainPort, ending⟩ | failed
      · refine Or.inl ⟨{ user := some (first, some second), host := host, port := port }, byte,
          rest, ?_, ⟨plainFirst, plainSecond, plainHost, plainPort⟩, ending⟩
        simp [Authority.text, Authority.login]
      · exact Or.inr failed
  · rw [to_at plainFirst rfl]
    rcases host_cut (p := p + first.length + 1)
        { userBgn := some p, userEnd := some (p + first.length)
          hostBgn := some (p + first.length + 1) }
        (by simp) (Or.inl rfl) (by simp) rfl before onward with
      ⟨host, port, byte, rest, rfl, plainHost, plainPort, ending⟩ | failed
    · refine Or.inl ⟨{ user := some (first, none), host := host, port := port }, byte,
        rest, ?_, ⟨plainFirst, nothing, plainHost, plainPort⟩, ending⟩
      simp [Authority.text, Authority.login]
    · exact Or.inr failed

theorem part_cut (first : Byte) (stops bytes : List Byte) (clean : (0 : Byte) ∉ bytes) :
    ∃ part rest, bytes = lead first part ++ rest ∧ Free stops (part.getD []) ∧
      (part = none → rest.head? ≠ some first) ∧
      (part ≠ none → ∀ byte, rest.head? = some byte → byte ∈ stops) := by
  cases bytes with
  | nil => exact ⟨none, [], rfl, by simp [Free], by simp, by simp⟩
  | cons byte bytes =>
      by_cases led : byte = first
      · subst led
        refine ⟨some (bytes.takeWhile fun other => decide (other ∉ stops)),
          bytes.dropWhile fun other => decide (other ∉ stops), ?_, ?_, by simp, ?_⟩
        · simp [List.takeWhile_append_dropWhile]
        · intro other member
          have inside := List.takeWhile_subset _ member
          refine ⟨fun zero => clean ?_, by simpa using List.mem_takeWhile_imp member⟩
          exact zero ▸ List.mem_cons_of_mem _ inside
        · intro _ stop last
          have stopped := List.head?_dropWhile_not (fun other => decide (other ∉ stops)) bytes
          rw [last] at stopped
          simpa using stopped
      · exact ⟨none, byte :: bytes, rfl, by simp [Free], by simp [led], by simp⟩

theorem tail_cut (bytes : List Byte) (clean : (0 : Byte) ∉ bytes)
    (starts : ∀ byte, bytes.head? = some byte → isHostEnd byte = true) :
    ∃ path query fragment, bytes = lead slash path ++ (lead question query ++ lead hash fragment) ∧
      Free [question, hash] (path.getD []) ∧ Free [hash] (query.getD []) ∧
      Free [] (fragment.getD []) := by
  obtain ⟨path, behindPath, rfl, freePath, pathless, pathEnds⟩ :=
    part_cut slash [question, hash] bytes clean
  have cleanPath : (0 : Byte) ∉ behindPath := fun zero => clean (List.mem_append_right _ zero)
  have afterPath : ∀ byte, behindPath.head? = some byte → byte ∈ [question, hash] := by
    intro byte first
    cases path with
    | some bytes => exact pathEnds (by simp) byte first
    | none =>
        have ending := starts byte first
        simp only [isHostEnd, Bool.or_eq_true, beq_iff_eq] at ending
        rcases ending with ((rfl | rfl) | rfl) | rfl
        · exact absurd (List.mem_of_mem_head? first) cleanPath
        · exact absurd first (pathless rfl)
        · decide
        · decide
  obtain ⟨query, behindQuery, rfl, freeQuery, queryless, queryEnds⟩ :=
    part_cut question [hash] behindPath cleanPath
  have cleanQuery : (0 : Byte) ∉ behindQuery := fun zero => cleanPath (List.mem_append_right _ zero)
  have afterQuery : ∀ byte, behindQuery.head? = some byte → byte = hash := by
    intro byte first
    cases query with
    | some bytes => simpa using queryEnds (by simp) byte first
    | none =>
        rcases List.mem_cons.mp (afterPath byte first) with rfl | last
        · exact absurd first (queryless rfl)
        · simpa using last
  obtain ⟨fragment, behindFragment, rfl, freeFragment, fragmentless, fragmentEnds⟩ :=
    part_cut hash [] behindQuery cleanQuery
  have done : behindFragment = [] := by
    cases behindFragment with
    | nil => rfl
    | cons byte rest =>
        cases fragment with
        | some bytes => simpa using fragmentEnds (by simp) byte rfl
        | none =>
            have last := afterQuery byte rfl
            exact absurd (congrArg some last) (fragmentless rfl)
  subst done
  exact ⟨path, query, fragment, by simp, freePath, freeQuery, freeFragment⟩

theorem protocol_cut (ends : (0 : Byte) ∈ left) (p : Nat) :
    (∃ seg byte rest, left = seg ++ byte :: rest ∧ (∀ other ∈ seg, isProtocol other = true) ∧
      (byte = 0 ∨ byte = colon)) ∨
    ∃ failure, protocolEnd p left = throw failure := by
  induction left generalizing p with
  | nil => cases ends
  | cons first others ih =>
      by_cases stop : first = 0 ∨ first = colon
      · exact Or.inl ⟨[], first, others, rfl, by simp, stop⟩
      · by_cases char : isProtocol first = true
        · have later : (0 : Byte) ∈ others := by
            rcases List.mem_cons.mp ends with zero | later
            · exact absurd (Or.inl zero.symm) stop
            · exact later
          rcases ih later (p + 1) with ⟨seg, byte, rest, rfl, chars, kind⟩ | ⟨failure, failed⟩
          · exact Or.inl ⟨first :: seg, byte, rest, rfl, by simpa [char] using chars, kind⟩
          · refine Or.inr ⟨failure, ?_⟩
            rw [protocolEnd, if_neg stop, if_pos char, failed]
        · refine Or.inr ⟨(-1, {}), ?_⟩
          rw [protocolEnd, if_neg stop, if_neg char]

end Cuts

section Grammar

variable {url : List Byte}

theorem slashes_cut (front : List Byte) {rest : List Byte} (ends : (0 : Byte) ∈ rest) :
    (∃ more, rest = slash :: slash :: more ∧ (0 : Byte) ∈ more) ∨
      slashes (front ++ colon :: rest) front.length = pure false := by
  have behind (byte : Byte) (others : List Byte) :
      fetch (front ++ colon :: byte :: others) (front.length + 1) = pure byte := by
    rw [List.append_cons]
    exact fetch_front (by simp)
  cases rest with
  | nil => cases ends
  | cons first others =>
      by_cases slashed : first = slash
      · subst slashed
        replace ends : (0 : Byte) ∈ others := (List.mem_cons.mp ends).resolve_left (by decide)
        cases others with
        | nil => cases ends
        | cons second more =>
            by_cases again : second = slash
            · subst again
              exact Or.inl ⟨more, rfl, (List.mem_cons.mp ends).resolve_left (by decide)⟩
            · have next : fetch (front ++ colon :: slash :: second :: more)
                  (front.length + 2) = pure second := by
                rw [List.append_cons, List.append_cons]
                exact fetch_front (by simp)
              refine Or.inr ?_
              simp only [slashes, behind, next, pure_bind_parse, ne_eq, not_true_eq_false,
                if_false, beq_eq_false_iff_ne.mpr again]
      · refine Or.inr ?_
        simp only [slashes, behind, pure_bind_parse, ne_eq, slashed, not_false_eq_true, if_true]

theorem urlParse_cases (url : List Byte) (clean : (0 : Byte) ∉ url) :
    (∃ pieces : Pieces, pieces.Split ∧ pieces.text = url) ∨
      ∃ failure, urlParse (url ++ [0]) = throw failure := by
  have terminated : (0 : Byte) ∈ url ++ [0] := by simp
  rcases protocol_cut terminated 0 with
    ⟨scheme, stop, rest, opened, chars, kind⟩ | ⟨failure, failed⟩
  · have walked : protocolEnd 0 (url ++ [0]) = pure scheme.length := by
      rw [opened, protocolEnd_skip chars, Nat.zero_add, protocolEnd, if_pos kind]
    have found : fetch (url ++ [0]) scheme.length = pure stop := by
      rw [opened]
      exact fetch_front rfl
    by_cases missing : stop = 0 ∨ scheme.length = 0
    · refine Or.inr ⟨(-2, {}), ?_⟩
      simp only [urlParse, walked, found, pure_bind_parse, if_pos missing]
    · obtain rfl : stop = colon := kind.resolve_left fun zero => missing (Or.inl zero)
      have started : scheme ≠ [] := fun none => missing (Or.inr (by simp [none]))
      have ends : (0 : Byte) ∈ rest := by
        have last : (0 : Byte) ∈ scheme ++ colon :: rest := by simp [← opened]
        rcases List.mem_append.mp last with inside | behind
        · exact absurd (chars 0 inside) (by decide)
        · exact (List.mem_cons.mp behind).resolve_left (by decide)
      rcases slashes_cut scheme ends with ⟨more, rfl, onward⟩ | refused
      · rcases authority_cut (scheme.length + 3) { protocol := scheme.map lowercase } onward with
          ⟨authority, byte, after, rfl, plains, ending⟩ | ⟨failure, failed⟩
        · have whole : (byte :: after).dropLast ++ [(byte :: after).getLast (by simp)] =
              byte :: after := List.dropLast_append_getLast (by simp)
          rw [← whole, ← List.append_assoc, ← List.cons_append, ← List.cons_append,
            ← List.cons_append, ← List.append_assoc] at opened
          obtain ⟨same, -⟩ := List.append_inj' opened rfl
          obtain ⟨path, query, fragment, tail, freePath, freeQuery, freeFragment⟩ :=
            tail_cut (byte :: after).dropLast (fun zero => clean (by simp [same, zero])) (by
              intro first head
              cases after with
              | nil => cases head
              | cons => cases head; exact ending)
          refine Or.inl ⟨⟨scheme, authority, path, query, fragment⟩,
            ⟨started, chars, plains.user, plains.password, plains.host, plains.port, freePath,
              freeQuery, freeFragment⟩, ?_⟩
          rw [same, tail]
          rfl
        · refine Or.inr ⟨failure, ?_⟩
          rw [opened, urlParse_opened chars started, failed, throw_bind]
      · refine Or.inr ⟨(-3, { protocol := scheme.map lowercase }), ?_⟩
        have protocol : (url ++ [0]).take scheme.length = scheme := by rw [opened, List.take_left]
        rw [← opened] at refused
        simp only [urlParse, walked, found, pure_bind_parse, if_neg missing, refused, protocol,
          Bool.not_false, if_true]
  · refine Or.inr ⟨failure, ?_⟩
    rw [urlParse, failed, throw_bind]

theorem accepted_iff {pieces : Pieces} {parts : Parts} (split : pieces.Split) :
    urlParse (pieces.text ++ [0]) = pure parts ↔ pieces.WellFormed ∧ pieces.parts = parts := by
  rw [urlParse_split split, outcome_iff]
  constructor
  · rintro ⟨⟨host, port, value⟩, same⟩
    exact ⟨⟨split, host, port, value⟩, same⟩
  · rintro ⟨formed, same⟩
    exact ⟨⟨formed.hostChars, formed.portChars, formed.portValue⟩, same⟩

theorem accepted_pieces {parts : Parts} (clean : (0 : Byte) ∉ url)
    (accepted : urlParse (url ++ [0]) = pure parts) :
    ∃ pieces : Pieces, pieces.WellFormed ∧ pieces.text = url ∧ pieces.parts = parts := by
  rcases urlParse_cases url clean with ⟨pieces, split, rfl⟩ | ⟨failure, failed⟩
  · obtain ⟨formed, same⟩ := (accepted_iff split).mp accepted
    exact ⟨pieces, formed, rfl, same⟩
  · exact absurd (failed.symm.trans accepted) throw_ne_pure

/-- The parse returns, and it returns 0 for the well formed URLs, with their parts. -/
theorem url_parse_grammar (url : List Byte) (clean : (0 : Byte) ∉ url) :
    ∃ result, (urlParse (url ++ [0])).run = some result ∧ ∀ parts, result = .ok parts ↔
      ∃ pieces : Pieces, pieces.WellFormed ∧ pieces.text = url ∧ pieces.parts = parts := by
  have returns : ∃ result, urlParse (url ++ [0]) = ExceptT.mk (some result) := by
    rcases urlParse_cases url clean with ⟨pieces, split, rfl⟩ | ⟨failure, failed⟩
    · rw [urlParse_split split]
      exact outcome_returns pieces
    · exact ⟨.error failure, failed⟩
  obtain ⟨result, parsed⟩ := returns
  refine ⟨result, congrArg ExceptT.run parsed, fun parts => ?_⟩
  constructor
  · rintro rfl
    exact accepted_pieces clean parsed
  · rintro ⟨pieces, formed, rfl, same⟩
    have succeeds := (accepted_iff formed.toSplit).mpr ⟨formed, same⟩
    exact Option.some.inj (parsed.symm.trans succeeds)

/-- A colon that begins a password and turns out to begin a port. -/
def hostPort : Pieces where
  scheme := text "Http"
  authority := { host := text "H", port := some (text "80") }

theorem url_parse_grammar_port :
    (urlParse (hostPort.text ++ [0])).run = some (.ok hostPort.parts) := by
  have formed : hostPort.WellFormed :=
    { scheme := by decide
      schemeChars := List.all_eq_true.mp (by decide)
      user := by decide
      password := by decide
      host := by decide
      port := by decide
      path := by decide
      query := by decide
      fragment := by decide
      hostChars := List.all_eq_true.mp (by decide)
      portChars := List.all_eq_true.mp (by decide)
      portValue := by decide }
  obtain ⟨result, parsed, iff⟩ := url_parse_grammar hostPort.text (by decide)
  rw [parsed, (iff _).mpr ⟨hostPort, formed, rfl, rfl⟩]

end Grammar

end Cocoflow.UrlGrammar
