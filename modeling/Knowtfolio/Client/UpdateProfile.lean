import Knowtfolio.Client.AuthProvider
import Knowtfolio.Data.Keyed
import Knowtfolio.Data.Url

/-!
# The picture of a profile

`client/src/components/organisms/forms/UpdateProfileForm`: a user updates a profile, maybe
with an image. The image is stored under the name of its file, in one bucket for all users,
and its address is made an attribute of the user, with the others. The site serves what is
below `/images/` from the bucket, by the key that is the path without its first slash.

So a picture is shown as long as nobody stores another image under the name of its file, if
the name is a path by itself: an address ends its path at a `?` or a `#`, and removes dots
(`picturesRight_iff_keeps`). Images of articles have names that are made up for them.
-/

namespace Knowtfolio.Client.UpdateProfile

open Interaction

/-! ## The form -/

/-- The form as an object: the keys it has, with their values, if they are defined. -/
abbrev ProfileForm := List (String × Option String)

/-- `imageForm`, with the bytes of the file. -/
structure ImageForm where
  blob : List UInt8
  name : String
  deriving DecidableEq

/-- `convertToAttributes`. -/
def convertToAttributes (form : ProfileForm) : List CognitoUserAttribute :=
  form.map fun field =>
    ⟨if field.1 = "description" then "custom:description" else field.1, field.2.getD ""⟩

/-- What is called for an update: the bucket, and the user pool. -/
inductive ProfileCall
  | putObject (key : String) (body : List UInt8)
  | updateAttributes (user : CognitoUser) (attributes : List CognitoUserAttribute)

/-- The calls are answered by an error, or none. -/
abbrev profileCalls : Signature := ⟨ProfileCall, fun _ => Except String Unit⟩

/-- A part of an update. It catches all errors. -/
abbrev ProfileProg := Program profileCalls Empty

/-- A message to the user. -/
inductive Toast
  | success (message : String)
  | error (message : String)
  deriving DecidableEq

/-- The message tells of a success. -/
def Toast.isSuccess : Toast → Bool
  | success _ => true
  | error _ => false

/-- What the user gets to see of an update. -/
structure Report where
  toasts : List Toast
  navigated : Option String
  deriving DecidableEq

/-- The update has succeeded, in all its parts. -/
def Report.isSuccess (report : Report) : Bool := report.toasts.all Toast.isSuccess

/-- The key of an image in the bucket. -/
def key (name : String) : String := "images/" ++ name

/-- The address of an image. -/
def uri (name : String) : String := Url.encodeURI ("https://knowtfolio.com" ++ "/" ++ key name)

/-- The part of `handleSubmitForm` that stores the image, if there is one: the form gets its
    address. -/
def submitImage (form : ProfileForm) : Option ImageForm → ProfileProg (ProfileForm × List Toast)
  | none => .ret (form, [])
  | some imageForm =>
    Program.ask (S := profileCalls) (.putObject (key imageForm.name) imageForm.blob) fun answer =>
      match answer with
      | .ok _ => .ret (form ++ [("picture", some (uri imageForm.name))],
          [.success "プロフィール画像の更新に成功しました。"])
      | .error _ => .ret (form, [.error "プロフィール画像の更新に失敗しました。"])

/-- The part of `handleSubmitForm` that updates the attributes. -/
def submitAttributes (user : CognitoUser) (form : ProfileForm) (toasts : List Toast) :
    ProfileProg Report :=
  Program.ask (S := profileCalls) (.updateAttributes user (convertToAttributes form)) fun answer =>
    match answer with
    | .ok _ => .ret ⟨toasts ++ [.success "プロフィールの更新に成功しました。"],
        some "/settings/profile"⟩
    | .error _ => .ret ⟨toasts ++ [.error "プロフィールの更新に失敗しました。"], none⟩

/-- `handleSubmitForm`. -/
def handleSubmitForm (user : CognitoUser) (website description : Option String)
    (imageForm : Option ImageForm) : ProfileProg Report := do
  let submitted ← submitImage [("website", website), ("description", description)] imageForm
  submitAttributes user submitted.1 submitted.2

/-! ## The site -/

/-- An object of the bucket, by the bytes of its key. -/
structure StoredObject where
  key : List UInt8
  body : List UInt8

/-- An attribute of a user of the pool. -/
structure StoredAttribute where
  user : CognitoUser
  name : String
  value : String

/-- An attribute is stored once for a user. -/
def StoredAttribute.primaryKey (a : StoredAttribute) : CognitoUser × String := (a.user, a.name)

/-- The bucket and the user pool. -/
structure World where
  bucket : Keyed.Table StoredObject.key
  attributes : Keyed.Table StoredAttribute.primaryKey

/-- What becomes of a call. An error may be that of the answer only. -/
inductive Outcome
  | done
  | failed (message : String)
  | unanswered (message : String)
  deriving DecidableEq

namespace Outcome

/-- What is called for happens. -/
def Happens : Outcome → Prop
  | failed _ => False
  | _ => True

instance : DecidablePred Happens
  | done | unanswered _ => isTrue trivial
  | failed _ => isFalse id

/-- What the client gets of it. -/
def answer : Outcome → Except String Unit
  | done => .ok ()
  | failed message | unanswered message => .error message

end Outcome

namespace World

/-- What a call changes. -/
def after (w : World) : ProfileCall → World
  | .putObject key body => { w with bucket := w.bucket.put ⟨Hex.utf8 key, body⟩ }
  | .updateAttributes user attributes =>
    { w with
      attributes := attributes.foldl (fun t a => t.put ⟨user, a.name, a.value⟩) w.attributes }

/-- A call, and what becomes of it. -/
def exec (w : World) (o : ProfileCall) (outcome : Outcome) :
    Option (Except String Unit × World) :=
  some (outcome.answer, if outcome.Happens then w.after o else w)

/-- The address that a user has as that of the picture. -/
def picture (w : World) (user : CognitoUser) : Option String :=
  (w.attributes.get (user, "picture")).map StoredAttribute.value

/-- The object of a key. -/
def object (w : World) (key : List UInt8) : Option (List UInt8) :=
  (w.bucket.get key).map StoredObject.body

end World

/-- The key of the object that the site serves at an address. -/
def resolve (url : String) : Option (List UInt8) :=
  (Url.pathOf "https://knowtfolio.com" url).bind fun path =>
    if (Hex.utf8 "/images/").isPrefixOf path then some ((Url.percentDecode path).drop 1) else none

/-- The key of the picture of a user. -/
def World.pictureKey (w : World) (user : CognitoUser) : Option (List UInt8) :=
  (w.picture user).bind resolve

/-- The picture that is shown of a user. -/
def World.shown (w : World) (user : CognitoUser) : Option (List UInt8) :=
  (w.pictureKey user).bind w.object

/-! ## Updates -/

/-- An update, and what becomes of its calls. -/
structure Update where
  user : CognitoUser
  website : Option String
  description : Option String
  image : Option ImageForm
  put : Outcome
  update : Outcome

/-- What becomes of the calls that are made. -/
def Update.choices (u : Update) : List Outcome :=
  match u.image with
  | some _ => [u.put, u.update]
  | none => [u.update]

/-- An update that was made. -/
structure Entry where
  user : CognitoUser
  image : Option ImageForm
  report : Report

/-- The world, and the updates that were made. -/
structure Site where
  world : World
  log : List Entry

namespace Site

/-- Nothing was updated yet. -/
def initial (w : World) : Site := ⟨w, []⟩

/-- The site after an update. -/
def next (s : Site) (u : Update) : Option Site :=
  (Program.run World.exec s.world (handleSubmitForm u.user u.website u.description u.image)
    u.choices).bind fun result =>
      result.1.toOption.map fun report => ⟨result.2, s.log ++ [⟨u.user, u.image, report⟩]⟩

/-- The last update of a user with an image. -/
def lastImageUpdate (s : Site) (user : CognitoUser) : Option Entry :=
  (s.log.filter fun e => e.user = user && e.image.isSome).getLast?

/-- The image that a user has uploaded last, if this has succeeded. -/
def lastImage (s : Site) (user : CognitoUser) : Option (List UInt8) :=
  (s.lastImageUpdate user).bind fun e =>
    if e.report.isSuccess then e.image.map ImageForm.blob else none

/-- Users whose last update with an image has succeeded have this image as their picture. -/
def PicturesRight (s : Site) : Prop :=
  ∀ user blob, s.lastImage user = some blob → s.world.shown user = some blob

/-- An image is stored under a name that the picture of no other user has, unless it is the
    same image. If all succeeds, the name is a path by itself, or the same image is where the
    address leads. -/
def Keeps (s : Site) (u : Update) : Prop :=
  ∀ image ∈ u.image,
    (u.put.Happens → ∀ user ≠ u.user, ∀ blob ∈ s.lastImage user,
      s.world.pictureKey user = some (Hex.utf8 (key image.name)) → blob = image.blob) ∧
    (u.put = .done → u.update = .done → Url.IsPlain (Hex.utf8 (key image.name)) ∨
      (resolve (uri image.name)).bind s.world.object = some image.blob)

end Site

/-! ## Addresses -/

/-- The address of an image leads to its key exactly if this is a path by itself. -/
theorem resolve_uri_eq_iff {name : String} :
    resolve (uri name) = some (Hex.utf8 (key name)) ↔ Url.IsPlain (Hex.utf8 (key name)) := by
  have horigin : (Hex.utf8 "https://knowtfolio.com").all Url.isUnescaped = true := by decide
  rw [resolve, uri, Url.pathOf_encodeURI (List.all_eq_true.1 horigin), Option.bind_some,
    Url.percentDecode_escaped, ← Url.plainPath_eq_iff]
  constructor
  · -- The path is the one that was written, its dots resolved: only a plain one is the same.
    intro h
    split at h
    next himages =>
      cases hpath : Url.plainPath (Hex.utf8 (key name)) with
      | nil =>
        rw [hpath] at himages
        exact absurd himages (by decide)
      | cons b bs =>
        rw [hpath] at h
        rw [Url.eq_slash_of_serialize hpath, ← Option.some.inj h]
        rfl
    next => cases h
  · intro h
    have himages : Url.escaped (47 :: Hex.utf8 "images/") = Hex.utf8 "/images/" := by decide
    rw [h, if_pos]
    · rfl
    · rw [List.isPrefixOf_iff_prefix, key, Hex.utf8_append, ← List.cons_append,
        Url.escaped_append, himages]
      exact List.prefix_append _ _

/-! ## What an update changes -/

section

variable {s s' : Site} {u : Update} {w : World} {user user' : CognitoUser}
  {attributes : List CognitoUserAttribute}

/-- The attributes that are not updated are as they were. -/
theorem get_after_updateAttributes {name : String}
    (h : user' ≠ user ∨ ∀ a ∈ attributes, a.name ≠ name) :
    (w.after (.updateAttributes user attributes)).attributes.get (user', name) =
      w.attributes.get (user', name) := by
  simp only [World.after]
  generalize w.attributes = t
  induction attributes generalizing t with
  | nil => rfl
  | cons a rest ih =>
    rw [List.foldl_cons, ih (h.imp_right fun h a ha => h a (List.mem_cons_of_mem _ ha)),
      Keyed.Table.get_put_of_ne]
    intro heq
    obtain ⟨huser, hname⟩ := Prod.mk.inj heq
    rcases h with h | h
    · exact h huser.symm
    · exact h a List.mem_cons_self hname

/-- Attributes are of one user. -/
theorem picture_after_of_ne (h : user' ≠ user) :
    (w.after (.updateAttributes user attributes)).picture user' = w.picture user' := by
  rw [World.picture, get_after_updateAttributes (.inl h), World.picture]

/-- Without an image, the picture is not updated. -/
theorem picture_after_of_none {website description : Option String} :
    (w.after (.updateAttributes user (convertToAttributes
      [("website", website), ("description", description)]))).picture user' =
        w.picture user' := by
  rw [World.picture, get_after_updateAttributes (.inr (by simp [convertToAttributes])),
    World.picture]

/-- An update with a picture sets it. -/
theorem picture_after_of_some {website description : Option String} {url : String} :
    (w.after (.updateAttributes user (convertToAttributes
      ([("website", website), ("description", description)] ++ [("picture", some url)])))).picture
        user = some url := by
  simp [World.picture, World.after, convertToAttributes, Keyed.Table.get_put,
    StoredAttribute.primaryKey]

/-- The update of the attributes, after what was said of the image. -/
theorem run_submitAttributes (w : World) (user : CognitoUser) (form : ProfileForm)
    (toasts : List Toast) (o : Outcome) :
    ∃ report, Program.run World.exec w (submitAttributes user form toasts) [o] =
      some (.ok report, if o.Happens then
        w.after (.updateAttributes user (convertToAttributes form)) else w) ∧
      (report.isSuccess = true ↔ toasts.all Toast.isSuccess = true ∧ o = .done) := by
  cases o with
  | done => exact ⟨_, rfl, by simp [Report.isSuccess, Toast.isSuccess]⟩
  | failed message => exact ⟨_, rfl, by simp [Report.isSuccess, Toast.isSuccess]⟩
  | unanswered message => exact ⟨_, rfl, by simp [Report.isSuccess, Toast.isSuccess]⟩

/-- An update of the site is a run of the form. -/
theorem next_of_run {report : Report}
    (h : Program.run World.exec s.world (handleSubmitForm u.user u.website u.description u.image)
      u.choices = some (.ok report, w)) :
    s.next u = some ⟨w, s.log ++ [⟨u.user, u.image, report⟩]⟩ := by
  rw [Site.next, h]
  rfl

/-- An update without an image. -/
structure UpdatesNone (s : Site) (u : Update) (s' : Site) : Prop where
  bucket : s'.world.bucket = s.world.bucket
  picture : ∀ user, s'.world.picture user = s.world.picture user
  log : ∃ report, s'.log = s.log ++ [⟨u.user, none, report⟩]

/-- An update with an image. -/
structure UpdatesImage (s : Site) (u : Update) (s' : Site) (image : ImageForm) : Prop where
  bucket : s'.world.bucket = if u.put.Happens then
    s.world.bucket.put ⟨Hex.utf8 (key image.name), image.blob⟩ else s.world.bucket
  others : ∀ user ≠ u.user, s'.world.picture user = s.world.picture user
  own : u.put = .done → u.update = .done → s'.world.picture u.user = some (uri image.name)
  log : ∃ report : Report, s'.log = s.log ++ [⟨u.user, some image, report⟩] ∧
    (report.isSuccess = true ↔ u.put = .done ∧ u.update = .done)

/-- Without an image, the picture stays what it is. -/
theorem updatesNone (hn : s.next u = some s') (himage : u.image = none) : UpdatesNone s u s' := by
  obtain ⟨user, website, description, image, put, update⟩ := u
  cases himage
  obtain ⟨report, hrun, -⟩ := run_submitAttributes s.world user
    [("website", website), ("description", description)] [] update
  cases hn.symm.trans (next_of_run hrun)
  refine ⟨?_, fun user' => ?_, report, rfl⟩
  · dsimp only
    split <;> rfl
  · dsimp only
    split
    · exact picture_after_of_none
    · rfl

/-- The world after the call by which the image is stored. -/
def World.afterPut (w : World) (image : ImageForm) (put : Outcome) : World :=
  if put.Happens then w.after (.putObject (key image.name) image.blob) else w

/-- The form after the call by which the image is stored. -/
def formAfterPut (website description : Option String) (image : ImageForm) (put : Outcome) :
    ProfileForm :=
  [("website", website), ("description", description)] ++
    if put = .done then [("picture", some (uri image.name))] else []

/-- With an image, the form gets its address if it has been stored. -/
theorem run_handleSubmitForm (w : World) (user : CognitoUser) (website description : Option String)
    (image : ImageForm) (put update : Outcome) :
    ∃ report, Program.run World.exec w (handleSubmitForm user website description (some image))
        [put, update] = some (.ok report, if update.Happens then
          (w.afterPut image put).after (.updateAttributes user
            (convertToAttributes (formAfterPut website description image put)))
          else w.afterPut image put) ∧
      (report.isSuccess = true ↔ put = .done ∧ update = .done) := by
  obtain ⟨report, hrun, hreport⟩ := run_submitAttributes (w.afterPut image put) user
    (formAfterPut website description image put)
    [if put = .done then .success "プロフィール画像の更新に成功しました。"
      else .error "プロフィール画像の更新に失敗しました。"] update
  refine ⟨report, ?_, hreport.trans (and_congr_left fun _ => ?_)⟩
  · rw [← hrun]
    cases put <;> rfl
  · cases put <;> simp [Toast.isSuccess]

/-- With an image, the object is put first, and then the URL of it. -/
theorem updatesImage {image : ImageForm} (hn : s.next u = some s')
    (himage : u.image = some image) : UpdatesImage s u s' image := by
  obtain ⟨user, website, description, image', put, update⟩ := u
  cases himage
  obtain ⟨report, hrun, hreport⟩ :=
    run_handleSubmitForm s.world user website description image put update
  cases hn.symm.trans (next_of_run hrun)
  refine ⟨?_, fun user' hne => ?_, ?_, report, rfl, hreport⟩
  · dsimp only [World.afterPut]
    split <;> split <;> rfl
  · have hput : (s.world.afterPut image put).picture user' = s.world.picture user' := by
      rw [World.afterPut]
      split <;> rfl
    dsimp only
    split
    · exact (picture_after_of_ne hne).trans hput
    · exact hput
  · intro hput hupdate
    dsimp only at hput hupdate
    subst hput hupdate
    exact picture_after_of_some

/-- Any update can be made. -/
theorem exists_next (s : Site) (u : Update) : ∃ s', s.next u = some s' := by
  obtain ⟨user, website, description, image, put, update⟩ := u
  cases image with
  | none =>
    obtain ⟨report, hrun, -⟩ := run_submitAttributes s.world user
      [("website", website), ("description", description)] [] update
    exact ⟨_, next_of_run hrun⟩
  | some image =>
    obtain ⟨report, hrun, -⟩ :=
      run_handleSubmitForm s.world user website description image put update
    exact ⟨_, next_of_run hrun⟩

/-- Without an image, an update changes nobody's picture, and with one only that of its user. -/
theorem picture_eq (hn : s.next u = some s') (h : user ≠ u.user ∨ u.image = none) :
    s'.world.picture user = s.world.picture user := by
  cases himage : u.image with
  | none => exact (updatesNone hn himage).picture user
  | some image =>
    rcases h with h | h
    · exact (updatesImage hn himage).others user h
    · cases himage.symm.trans h

/-- The images that count are those of the user of an update with an image. -/
theorem lastImage_eq (hn : s.next u = some s') (h : user ≠ u.user ∨ u.image = none) :
    s'.lastImage user = s.lastImage user := by
  have hlog : ∃ report, s'.log = s.log ++ [⟨u.user, u.image, report⟩] := by
    cases himage : u.image with
    | none => exact (updatesNone hn himage).log
    | some image =>
      obtain ⟨report, hlog, -⟩ := (updatesImage hn himage).log
      exact ⟨report, hlog⟩
  obtain ⟨report, hlog⟩ := hlog
  have hother : ([⟨u.user, u.image, report⟩] : List Entry).filter
      (fun e => e.user = user && e.image.isSome) = [] := by
    rcases h with h | h
    · simp [h.symm]
    · simp [h]
  rw [Site.lastImage, Site.lastImageUpdate, hlog, List.filter_append, hother, List.append_nil]
  rfl

/-- The last image of a user is that of the last update in which both calls succeeded. -/
theorem lastImage_user {image : ImageForm} (h : UpdatesImage s u s' image) :
    s'.lastImage u.user = if u.put = .done ∧ u.update = .done then some image.blob else none := by
  obtain ⟨report, hlog, hreport⟩ := h.log
  rw [Site.lastImage, Site.lastImageUpdate, hlog, List.filter_append,
    List.filter_cons_of_pos (by simp), List.filter_nil, List.getLast?_concat, Option.bind_some]
  simp only [hreport, Option.map_some]

/-! ## Pictures -/

/-- What is shown is the object that the URL of the picture leads to. -/
theorem shown_eq_some {blob : List UInt8} : w.shown user = some blob ↔
    ∃ k, w.pictureKey user = some k ∧ w.object k = some blob := Option.bind_eq_some_iff

/-- The objects after an update with an image. -/
theorem UpdatesImage.object {image : ImageForm} (h : UpdatesImage s u s' image)
    (k : List UInt8) : s'.world.object k =
      if u.put.Happens ∧ Hex.utf8 (key image.name) = k then some image.blob
      else s.world.object k := by
  rw [World.object, h.bucket]
  by_cases hput : u.put.Happens
  · rw [if_pos hput, Keyed.Table.get_put]
    by_cases hk : Hex.utf8 (key image.name) = k <;> simp [hput, hk, World.object]
  · rw [if_neg hput, if_neg fun h => hput h.1, World.object]

/-- The picture of another user stays, unless another image is stored in its place. -/
theorem shown_others_iff {image : ImageForm} (h : UpdatesImage s u s' image)
    (hne : user ≠ u.user) {blob : List UInt8} (hshown : s.world.shown user = some blob) :
    s'.world.shown user = some blob ↔ (u.put.Happens →
      s.world.pictureKey user = some (Hex.utf8 (key image.name)) → blob = image.blob) := by
  have hkey : s'.world.pictureKey user = s.world.pictureKey user := by
    rw [World.pictureKey, h.others user hne, World.pictureKey]
  obtain ⟨k, hk, hobject⟩ := shown_eq_some.1 hshown
  rw [World.shown, hkey, hk, Option.bind_some, h.object]
  by_cases hput : u.put.Happens
  · by_cases hname : Hex.utf8 (key image.name) = k
    · rw [if_pos ⟨hput, hname⟩, hname, Option.some_inj, eq_comm]
      simp [hput]
    · rw [if_neg fun h => hname h.2, hobject]
      simp [hput, Ne.symm hname]
  · rw [if_neg fun h => hput h.1, hobject]
    simp [hput]

/-- The picture of the user is the image if its address leads there, or to the same image. -/
theorem shown_user_iff {image : ImageForm} (h : UpdatesImage s u s' image) (hput : u.put = .done)
    (hupdate : u.update = .done) : s'.world.shown u.user = some image.blob ↔
      Url.IsPlain (Hex.utf8 (key image.name)) ∨
        (resolve (uri image.name)).bind s.world.object = some image.blob := by
  have hhappens : u.put.Happens := by
    rw [hput]
    trivial
  rw [World.shown, World.pictureKey, h.own hput hupdate, Option.bind_some, ← resolve_uri_eq_iff]
  cases hk : resolve (uri image.name) with
  | none => simp
  | some k =>
    rw [Option.bind_some, Option.bind_some, h.object, Option.some_inj]
    by_cases hname : Hex.utf8 (key image.name) = k
    · simp [hhappens, hname]
    · simp [hname, Ne.symm hname]

/-- Without an image, an update changes nothing that is shown. -/
theorem UpdatesNone.shown (h : UpdatesNone s u s') (user : CognitoUser) :
    s'.world.shown user = s.world.shown user := by
  have hobject : s'.world.object = s.world.object := by
    funext k
    rw [World.object, h.bucket, World.object]
  rw [World.shown, World.pictureKey, h.picture, hobject, World.shown, World.pictureKey]

/-- The pictures are right after an update exactly if it keeps them. -/
theorem picturesRight_iff (hs : s.PicturesRight) (hn : s.next u = some s') :
    s'.PicturesRight ↔ s.Keeps u := by
  -- An update without an image leaves what is shown as it is.
  cases himage : u.image with
  | none =>
    refine iff_of_true (fun user blob hlast => ?_) fun image hmem => ?_
    · rw [lastImage_eq hn (.inr himage)] at hlast
      rw [(updatesNone hn himage).shown]
      exact hs user blob hlast
    · rw [himage] at hmem
      cases hmem
  | some image =>
    have h := updatesImage hn himage
    constructor
    · intro hright image' hmem
      cases himage.symm.trans hmem
      refine ⟨fun hput user hne blob hlast hkey => ?_, fun hput hupdate => ?_⟩
      · have hshown := hright user blob ((lastImage_eq hn (.inl hne)).trans hlast)
        exact (shown_others_iff h hne (hs user blob hlast)).1 hshown hput hkey
      · have hlast := lastImage_user h
        rw [if_pos ⟨hput, hupdate⟩] at hlast
        exact (shown_user_iff h hput hupdate).1 (hright _ _ hlast)
    · -- The user's own picture, and those of the others, by what is shown under a key.
      intro hkeeps user blob hlast
      obtain ⟨hothers, hown⟩ := hkeeps image himage
      by_cases hne : user = u.user
      · subst hne
        rw [lastImage_user h] at hlast
        split at hlast
        next hdone =>
          cases hlast
          exact (shown_user_iff h hdone.1 hdone.2).2 (hown hdone.1 hdone.2)
        next => cases hlast
      · rw [lastImage_eq hn (.inl hne)] at hlast
        exact (shown_others_iff h hne (hs user blob hlast)).2 fun hput =>
          hothers hput user hne blob hlast

/-- In a run of updates that keep them, pictures are the images that their users have uploaded
    last, and are the same after updates by others, and without an image. After such a run,
    the pictures are right after an update exactly if this keeps them. In any run, the address
    of a picture is changed only by its user, and only with an image, and without an image
    nothing else is shown. -/
theorem picturesRight_iff_keeps : ∀ w,
    (∀ s, Trace.Reaches Site.next Site.Keeps (.initial w) s → s.PicturesRight ∧
      ∀ u s', s.Keeps u → s.next u = some s' → ∀ user, user ≠ u.user ∨ u.image = none →
        ∀ blob ∈ s.lastImage user, s.world.shown user = some blob ∧
          s'.world.shown user = some blob) ∧
    (∀ s u s', Trace.Reaches Site.next Site.Keeps (.initial w) s → s.next u = some s' →
      (s'.PicturesRight ↔ s.Keeps u)) ∧
    ∀ (s : Site) (u : Update) (s' : Site), s.next u = some s' →
      (∀ user, user ≠ u.user ∨ u.image = none →
        s'.world.picture user = s.world.picture user) ∧
      (u.image = none → ∀ user, s'.world.shown user = s.world.shown user) := by
  intro w
  have hright : ∀ s, Trace.Reaches Site.next Site.Keeps (.initial w) s → s.PicturesRight := by
    intro s h
    refine h.invariant Site.PicturesRight (fun _ _ hlast => by cases hlast) ?_
    intro s u s' _ hs hkeeps hn
    exact (picturesRight_iff hs hn).2 hkeeps
  refine ⟨fun s h => ⟨hright s h, ?_⟩, fun s u s' h hn => picturesRight_iff (hright s h) hn,
    fun s u s' hn => ⟨fun user => picture_eq hn, fun himage => (updatesNone hn himage).shown⟩⟩
  intro u s' hkeeps hn user hother blob hlast
  refine ⟨hright s h user blob hlast, hright s' (h.move hkeeps hn) user blob ?_⟩
  rw [lastImage_eq hn hother]
  exact hlast

end

/-! A picture, and another image under the name of its file. -/

section

def alice : CognitoUser := ⟨"alice"⟩

/-- A user uploads an image, and all succeeds. -/
def upload (user : CognitoUser) (name : String) (blob : List UInt8) : Update :=
  ⟨user, none, none, some ⟨blob, name⟩, .done, .done⟩

/-- There is nothing yet. -/
def nothing : World := ⟨.empty, .empty⟩

def bob : CognitoUser := ⟨"bob"⟩

/-- A user uploads an image, and then another user another image, under another name. -/
theorem picturesRight_alice : ∃ s, Trace.Reaches Site.next Site.Keeps (.initial nothing) s ∧
    s.lastImage alice = some [1] ∧ s.world.shown alice = some [1] ∧
    s.lastImage bob = some [2] ∧ s.world.shown bob = some [2] := by
  -- The name of the first image does not occur in its key as it is: it is encoded.
  have hkeeps₁ : (Site.initial nothing).Keeps (upload alice "わたし 1.png" [1]) := by
    intro image hmem
    cases hmem
    exact ⟨fun _ _ _ _ hlast => absurd hlast nofun, fun _ _ => .inl (by decide +kernel)⟩
  have hname : ((Site.initial nothing).next (upload alice "わたし 1.png" [1])).any (fun s =>
      s.world.pictureKey alice ≠ some (Hex.utf8 (key "bob.png"))) = true := by decide +kernel
  obtain ⟨s₁, hn₁, hname⟩ := (Option.any_eq_true _ _).1 hname
  have hlast₁ : s₁.lastImage alice = some [1] := lastImage_user (updatesImage hn₁ rfl)
  have hkeeps₂ : s₁.Keeps (upload bob "bob.png" [2]) := by
    intro image hmem
    cases hmem
    refine ⟨fun _ user hne blob hlast hkey => ?_, fun _ _ => .inl (by decide +kernel)⟩
    by_cases huser : user = alice
    · exact absurd (huser ▸ hkey) (of_decide_eq_true hname)
    · -- The others have no image.
      rw [lastImage_eq hn₁ (.inl huser)] at hlast
      cases hlast
  obtain ⟨s₂, hn₂⟩ := exists_next s₁ (upload bob "bob.png" [2])
  have hreaches : Trace.Reaches Site.next Site.Keeps (.initial nothing) s₂ :=
    .move (.move .refl hkeeps₁ hn₁) hkeeps₂ hn₂
  have halice : s₂.lastImage alice = some [1] :=
    (lastImage_eq hn₂ (.inl (by decide))).trans hlast₁
  have hbob : s₂.lastImage bob = some [2] := lastImage_user (updatesImage hn₂ rfl)
  have hright := ((picturesRight_iff_keeps nothing).1 s₂ hreaches).1
  exact ⟨s₂, hreaches, halice, hright _ _ halice, hbob, hright _ _ hbob⟩

/-- Another user uploads another image, under the same name. -/
theorem not_picturesRight : ¬ ∀ w s, Trace.Reaches Site.next Trace.Any (.initial w) s →
    s.PicturesRight := by
  intro h
  obtain ⟨s, hs, hp⟩ := Trace.Reaches.exists_of_run Site.next (fun _ _ => true)
    [upload alice "me.png" [1], upload bob "me.png" [2]] (.initial nothing)
    (fun s => s.lastImage alice = some [1] ∧ s.world.shown alice = some [2])
    (by decide +kernel)
  obtain ⟨hlast, hshown⟩ := of_decide_eq_true hp
  have hright := h nothing s hs.any alice [1] hlast
  rw [hshown] at hright
  cases hright

end

end Knowtfolio.Client.UpdateProfile
