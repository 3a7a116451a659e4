import FencePreview.Config.SiteUrl
import FencePreview.Proofs.TextParts

/-! Paths of addresses. The path stands between the host, where there is one, and the query or the
fragment. A scheme is looked for anywhere in an address, so one that is a path already gets another
path where `://` stands in it. -/

namespace FencePreview

namespace SiteUrl

def schemes : List Text := ["http://".toList, "https://".toList]

def separator : Text := "://".toList

/-- The path `own` of an address, with what may stand before and after it. -/
inductive HasPath : Text → Text → Prop
  | web (scheme host own tail : Text) (known : scheme ∈ schemes)
      (hosts : ∀ character ∈ host, character ≠ '/' ∧ endsPath character = false)
      (begins : ∀ character ∈ own.head?, character = '/')
      (inside : ∀ character ∈ own, endsPath character = false)
      (ends : ∀ character ∈ tail.head?, endsPath character = true) :
      HasPath (scheme ++ (host ++ (own ++ tail))) own
  | absolute (own tail : Text) (begins : own.head? = some '/')
      (inside : ∀ character ∈ own, endsPath character = false)
      (ends : ∀ character ∈ tail.head?, endsPath character = true) :
      HasPath (own ++ tail) own

def beforeTail (text : Text) : Text := text.takeWhile fun character => !endsPath character

/-- The path in what follows a scheme. -/
def afterHost (text : Text) : Text := (beforeTail text).dropWhile (· ≠ '/')

theorem path_eq (url : Text) :
    path url =
      match Text.splitFirst? separator url with
      | some (_, rest) => closeWithSlash (afterHost rest)
      | none => closeWithSlash (beforeTail url) := rfl

theorem beforeTail_append (own tail : Text) (inside : ∀ character ∈ own, endsPath character = false)
    (ends : ∀ character ∈ tail.head?, endsPath character = true) : beforeTail (own ++ tail) = own :=
  Text.takeWhile_append_stop _ own tail (fun character member => by simp [inside character member])
    (fun character first => by simp [ends character first])

theorem afterHost_append (host own tail : Text)
    (hosts : ∀ character ∈ host, character ≠ '/' ∧ endsPath character = false)
    (begins : ∀ character ∈ own.head?, character = '/')
    (inside : ∀ character ∈ own, endsPath character = false)
    (ends : ∀ character ∈ tail.head?, endsPath character = true) :
    afterHost (host ++ (own ++ tail)) = own := by
  have whole : ∀ character ∈ host ++ own, endsPath character = false := by
    intro character member
    rcases List.mem_append.mp member with inHost | inOwn
    · exact (hosts character inHost).2
    · exact inside character inOwn
  rw [afterHost, ← List.append_assoc, beforeTail_append (host ++ own) tail whole ends]
  exact Text.dropWhile_append_stop _ host own (fun character member => by simp [(hosts character member).1])
    (fun character first => by simp [begins character first])

theorem splitFirst?_scheme (scheme rest : Text) (known : scheme ∈ schemes) :
    ∃ name, Text.splitFirst? separator (scheme ++ rest) = some (name, rest) := by
  simp only [schemes, List.mem_cons, List.not_mem_nil, or_false] at known
  rcases known with rfl | rfl
  · exact ⟨"http".toList, rfl⟩
  · exact ⟨"https".toList, rfl⟩

theorem head?_dropWhile_ends (text : Text) :
    ∀ character ∈ (text.dropWhile fun character => !endsPath character).head?, endsPath character = true :=
  fun character begins => by simpa using eq_false_of_head?_dropWhile _ text character begins

theorem endsPath_of_mem_beforeTail (text : Text) (character : Char) (member : character ∈ beforeTail text) :
    endsPath character = false := by
  simpa using List.mem_takeWhile_imp member

theorem hasPath_web (scheme rest : Text) (known : scheme ∈ schemes) :
    HasPath (scheme ++ rest) (afterHost rest) := by
  let host := (beforeTail rest).takeWhile (· ≠ '/')
  let tail := rest.dropWhile fun character => !endsPath character
  have parts : host ++ (afterHost rest ++ tail) = rest := by
    rw [← List.append_assoc, afterHost, List.takeWhile_append_dropWhile]
    exact List.takeWhile_append_dropWhile
  have hosts : ∀ character ∈ host, character ≠ '/' ∧ endsPath character = false := fun character member =>
    ⟨by simpa using List.mem_takeWhile_imp member,
      endsPath_of_mem_beforeTail rest character ((List.takeWhile_prefix _).subset member)⟩
  have begins : ∀ character ∈ (afterHost rest).head?, character = '/' := fun character first => by
    simpa using eq_false_of_head?_dropWhile _ (beforeTail rest) character first
  have inside : ∀ character ∈ afterHost rest, endsPath character = false := fun character member =>
    endsPath_of_mem_beforeTail rest character ((List.dropWhile_suffix _).subset member)
  have divided := HasPath.web scheme host (afterHost rest) tail known hosts begins inside
    (head?_dropWhile_ends rest)
  rw [parts] at divided
  exact divided

theorem hasPath_absolute (rest : Text) : HasPath ('/' :: rest) (beforeTail ('/' :: rest)) := by
  have begins : (beforeTail ('/' :: rest)).head? = some '/' := rfl
  have divided := HasPath.absolute (beforeTail ('/' :: rest)) _ begins
    (endsPath_of_mem_beforeTail ('/' :: rest)) (head?_dropWhile_ends ('/' :: rest))
  rw [beforeTail, List.takeWhile_append_dropWhile] at divided
  exact divided

theorem hasPath_cases (url own : Text) (divided : HasPath url own) :
    (∃ scheme ∈ schemes, ∃ rest, url = scheme ++ rest ∧ own = afterHost rest) ∨
      url.head? = some '/' ∧ own = beforeTail url := by
  cases divided with
  | web scheme host own tail known hosts begins inside ends =>
      exact .inl ⟨scheme, known, _, rfl, (afterHost_append host own tail hosts begins inside ends).symm⟩
  | absolute own tail begins inside ends =>
      refine .inr ⟨?_, (beforeTail_append own tail inside ends).symm⟩
      rw [List.head?_append, begins]
      rfl

theorem head?_scheme (scheme rest : Text) (known : scheme ∈ schemes) :
    (scheme ++ rest).head? = some 'h' := by
  simp only [schemes, List.mem_cons, List.not_mem_nil, or_false] at known
  rcases known with rfl | rfl <;> rfl

theorem HasPath.unique (url own other : Text) (first : HasPath url own) (second : HasPath url other) :
    own = other := by
  rcases hasPath_cases url own first with ⟨scheme, known, rest, rfl, rfl⟩ | ⟨rooted, rfl⟩
  · rcases hasPath_cases _ other second with ⟨scheme', known', rest', parts, rfl⟩ | ⟨rooted, rfl⟩
    · obtain ⟨name, found⟩ := splitFirst?_scheme scheme rest known
      obtain ⟨name', found'⟩ := splitFirst?_scheme scheme' rest' known'
      rw [parts, found'] at found
      simp only [Option.some.injEq, Prod.mk.injEq] at found
      rw [found.2]
    · simp [head?_scheme scheme rest known] at rooted
  · rcases hasPath_cases url other second with ⟨scheme, known, rest, rfl, rfl⟩ | ⟨_, rfl⟩
    · simp [head?_scheme scheme rest known] at rooted
    · rfl

theorem isAccepted_cases (url : Text) (accepted : isAccepted url = true) :
    (∃ scheme ∈ schemes, ∃ rest, url = scheme ++ rest) ∨ ∃ rest, url = '/' :: rest := by
  simp only [isAccepted, beginnings, List.any_eq_true, Option.isSome_iff_exists,
    Text.stripStart?_eq_some_iff] at accepted
  obtain ⟨beginning, known, rest, parts⟩ := accepted
  simp only [List.mem_cons, List.not_mem_nil, or_false] at known
  rcases known with rfl | rfl | rfl
  · exact .inl ⟨_, by simp [schemes], rest, parts⟩
  · exact .inl ⟨_, by simp [schemes], rest, parts⟩
  · exact .inr ⟨rest, parts⟩

theorem path_web (scheme rest : Text) (known : scheme ∈ schemes) :
    path (scheme ++ rest) = closeWithSlash (afterHost rest) := by
  obtain ⟨name, found⟩ := splitFirst?_scheme scheme rest known
  rw [path_eq, found]

theorem length_closeWithSlash (own : Text) :
    own.length ≤ (closeWithSlash own).length ∧ (closeWithSlash own).length ≤ own.length + 1 := by
  rw [closeWithSlash]
  split <;> simp

/-- A separator within the path itself: what follows the host that is seen there is shorter than the path. -/
theorem closeWithSlash_afterHost_ne (before after : Text)
    (inside : ∀ character ∈ before, endsPath character = false) :
    closeWithSlash (afterHost after) ≠ closeWithSlash (beforeTail (before ++ separator ++ after)) := by
  intro same
  have front : ∀ character ∈ before ++ separator, (!endsPath character) = true := by
    intro character member
    rcases List.mem_append.mp member with early | late
    · simp [inside character early]
    · have plain : ∀ character ∈ separator, (!endsPath character) = true := by simp [separator, endsPath]
      exact plain character late
  have whole : beforeTail (before ++ separator ++ after) = before ++ separator ++ beforeTail after :=
    List.takeWhile_append_of_pos front
  have three : separator.length = 3 := rfl
  have shorter : (afterHost after).length ≤ (beforeTail after).length :=
    (List.dropWhile_suffix _).length_le
  have left := (length_closeWithSlash (afterHost after)).2
  have right := (length_closeWithSlash (beforeTail (before ++ separator ++ after))).1
  rw [same, whole] at left
  rw [whole] at right
  simp only [List.length_append] at left right
  omega

/-- An address has one path, and that is the path found for it, closed with a slash, unless the address
is itself a path and holds `://`. Then the path is looked for behind a host that follows the first
`://`, and it is the right one only if that stands past the path and what is found there is the same. -/
theorem path_accepted (url : Text) (accepted : isAccepted url = true) :
    ∃ own, HasPath url own ∧ (∀ other, HasPath url other → other = own) ∧
      ((url.head? = some '/' → ¬separator <:+: url) → path url = closeWithSlash own) ∧
      ∀ before after, url.head? = some '/' → Text.splitFirst? separator url = some (before, after) →
        ∃ inner, HasPath ("http://".toList ++ after) inner ∧ path url = closeWithSlash inner ∧
          (path url = closeWithSlash own ↔
            (∃ character ∈ before, endsPath character = true) ∧ closeWithSlash inner = closeWithSlash own) := by
  rcases isAccepted_cases url accepted with ⟨scheme, known, rest, rfl⟩ | ⟨rest, rfl⟩
  · have divided := hasPath_web scheme rest known
    refine ⟨afterHost rest, divided, fun other found => HasPath.unique _ _ _ found divided,
      fun _ => path_web scheme rest known, fun before after rooted => ?_⟩
    simp [head?_scheme scheme rest known] at rooted
  · have divided := hasPath_absolute rest
    refine ⟨beforeTail ('/' :: rest), divided, fun other found => HasPath.unique _ _ _ found divided,
      fun free => ?_, fun before after _ found => ?_⟩
    · have absent : Text.splitFirst? separator ('/' :: rest) = none := by
        have none := free rfl
        rw [← Text.splitFirst?_isSome_iff separator _ (by decide)] at none
        simpa using none
      rw [path_eq, absent]
    · have taken : path ('/' :: rest) = closeWithSlash (afterHost after) := by rw [path_eq, found]
      refine ⟨afterHost after, hasPath_web _ after (by simp [schemes]), taken, ?_⟩
      rw [taken]
      refine ⟨fun same => ⟨?_, same⟩, fun both => both.2⟩
      by_contra none
      have inside : ∀ character ∈ before, endsPath character = false := by
        intro character member
        rw [Bool.eq_false_iff]
        exact fun ends => none ⟨character, member, ends⟩
      rw [Text.splitFirst?_eq_append _ _ _ _ found] at same
      exact closeWithSlash_afterHost_ne before after inside same

/-- An address in the query of a path: the site would be looked for below the path of that address. -/
theorem path_accepted_query :
    let url : Text := "/go?to=http://a/b".toList
    isAccepted url = true ∧ ∃ own, HasPath url own ∧ (∀ other, HasPath url other → other = own) ∧
      closeWithSlash own = "/go/".toList ∧ path url = "/b/".toList ∧ path url ≠ closeWithSlash own := by
  intro url
  have accepted : isAccepted url = true := by decide
  obtain ⟨own, divided, unique, _, misread⟩ := path_accepted url accepted
  obtain rfl : "/go".toList = own := unique _ (hasPath_absolute "go?to=http://a/b".toList)
  obtain ⟨inner, host, taken, right⟩ := misread "/go?to=http".toList "a/b".toList rfl rfl
  obtain rfl : inner = "/b".toList := HasPath.unique _ _ _ host (hasPath_web _ "a/b".toList (by decide))
  refine ⟨accepted, _, divided, unique, rfl, taken, ?_⟩
  intro same
  exact absurd (right.mp same).2 (by decide)

end SiteUrl

end FencePreview
