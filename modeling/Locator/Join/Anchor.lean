import Locator.Url.Reader

namespace Locator.Join

/-- The argument of a join that all behind it go onto. -/
structure Anchor where
  index : Nat
  url : Url

/-- What a rooted address takes over from a donor: the scheme, and the host as
    well when it has none. A bucket is not taken over, for the first name of the
    path is one. -/
def inherit (u donor : Url) : Url :=
  if u.authority ≠ [] then { u with scheme := donor.scheme }
  else if donor.scheme = Scheme.bucket then
    let rest := u.path.dropWhile (· == '/')
    { u with scheme := donor.scheme, authority := rest.takeWhile (· != '/'), path := rest.dropWhile (· != '/') }
  else { u with scheme := donor.scheme, authority := donor.authority }

/-- The nearest of the arguments, given last first, that has a recognized
    scheme. -/
def donor? (earlier : List Text) : Option Url :=
  (earlier.map Url.readPlain).find? Url.recognized

/-- Looks for an absolute argument among those given last first. -/
def scan : List Text → Option Anchor
  | [] => none
  | arg :: earlier =>
    let u := Url.readPlain arg
    if u.recognized then some ⟨earlier.length, u⟩
    else if u.absolute then some ⟨earlier.length, (donor? earlier).elim u (inherit u)⟩
    else scan earlier

/-- The last absolute argument. One without a recognized scheme takes over from
    the nearest donor in front of it. -/
def anchor? (args : List Text) : Option Anchor :=
  scan args.reverse

end Locator.Join
