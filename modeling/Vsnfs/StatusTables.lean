import Vsnfs.ClientXdr

/-! The two error tables against each other. The server turns a host error into a status by its own
table, the client turns the status back by another one. The client's table lacks five statuses that
the server's has, and in two of its rows a minus sign stands for the comma: those rows map a status
that neither side defines to 0, which is how the client spells success. -/

namespace Vsnfs

open Base

/-- Zero exactly for `VSNFS_OK`, negative for every other status. -/
def StatusSigned (stat : Word) : Prop :=
  (vsnfsStatToErrno stat.toInt = 0 ↔ stat = BitVec.ofNat 32 VsnfsStat.ok.code) ∧
    (stat ≠ BitVec.ofNat 32 VsnfsStat.ok.code → vsnfsStatToErrno stat.toInt < 0)

/-- A host error with a row in the server's table, and with a status that no other host error gets. -/
def OwnStatus (errno : Int) : Prop :=
  errno ∈ vsnfserrnoTable.map Prod.snd ∧
    ∀ other : Int, vsnfserrno other = vsnfserrno errno → other = errno

/-- The host error the client ends up with is the one the server started from. -/
def ErrnoReturned (errno : Int) : Prop := vsnfsStatToErrno (ntohl (vsnfserrno errno)).toInt = errno

instance (errno : Int) : Decidable (ErrnoReturned errno) := inferInstanceAs (Decidable (_ = _))

/-- The status numbers of the two rows written with a minus sign: `VSNFSERR_OPNOTSUPP - EOPNOTSUPP`
and `VSNFSERR_BAD_COOKIE - EBADCOOKIE`. -/
def subtractedStatuses : List Int :=
  [VsnfsStat.opnotsupp.code - 95, VsnfsStat.badCookie.code - ebadcookie]

/-- `-EPERM`, `-EACCES`, `-EXDEV`, `-EOPNOTSUPP` and `-ETOOSMALL`: the server has a status for each, the
client's table has no row for it. -/
def rowlessErrnos : List Int := [-1, -13, -18, -95, -525]

/-- What the client's search gives: the error number of a row, or `-EIO` without one. -/
theorem vsnfsStatToErrno_cases (stat : Int) :
    (∃ row ∈ vsnfsErrtbl, row.1 = stat ∧ vsnfsStatToErrno stat = row.2) ∨
      ((∀ row ∈ vsnfsErrtbl, row.1 ≠ stat) ∧ vsnfsStatToErrno stat = -5) := by
  unfold vsnfsStatToErrno
  cases hfind : vsnfsErrtbl.find? (fun row => row.1 = stat) with
  | none =>
      refine .inr ⟨fun row hrow heq => ?_, rfl⟩
      exact absurd (List.find?_eq_none.mp hfind row hrow) (by simp [heq])
  | some row =>
      exact .inl ⟨row, List.mem_of_find?_eq_some hfind, by simpa using List.find?_some hfind, rfl⟩

theorem vsnfsStatToErrno_eq_zero_iff (stat : Int) :
    vsnfsStatToErrno stat = 0 ↔ stat = VsnfsStat.ok.code ∨ stat ∈ subtractedStatuses := by
  have hrows : ∀ row ∈ vsnfsErrtbl, row.2 = 0 ↔ row.1 = VsnfsStat.ok.code ∨ row.1 ∈ subtractedStatuses := by
    decide
  obtain ⟨row, hrow, hstat, herrno⟩ | ⟨hnone, herrno⟩ := vsnfsStatToErrno_cases stat
  · rw [herrno, hrows row hrow, hstat]
  · rw [herrno]
    refine iff_of_false (by decide) ?_
    have hlisted : ∀ status, status = (VsnfsStat.ok.code : Int) ∨ status ∈ subtractedStatuses →
        ∃ row ∈ vsnfsErrtbl, row.1 = status := by
      intro status hstatus
      simp only [subtractedStatuses, List.mem_cons, List.not_mem_nil, or_false] at hstatus
      obtain rfl | rfl | rfl := hstatus <;> decide
    intro hlist
    obtain ⟨row, hrow, hstat⟩ := hlisted stat hlist
    exact hnone row hrow hstat

theorem vsnfsStatToErrno_nonpos (stat : Int) : vsnfsStatToErrno stat ≤ 0 := by
  have hrows : ∀ row ∈ vsnfsErrtbl, row.2 ≤ 0 := by decide
  obtain ⟨row, hrow, -, herrno⟩ | ⟨-, herrno⟩ := vsnfsStatToErrno_cases stat
  · exact herrno ▸ hrows row hrow
  · exact herrno ▸ by decide

theorem word_eq_ok_iff (stat : Word) :
    stat = BitVec.ofNat 32 VsnfsStat.ok.code ↔ stat.toInt = VsnfsStat.ok.code := by
  constructor
  · intro h
    rw [h]
    decide
  · intro h
    exact BitVec.eq_of_toInt_eq h

theorem statusSigned_iff (stat : Word) : StatusSigned stat ↔ stat.toInt ∉ subtractedStatuses := by
  have hdisjoint : (VsnfsStat.ok.code : Int) ∉ subtractedStatuses := by decide
  have hnonpos := vsnfsStatToErrno_nonpos stat.toInt
  have hzero := vsnfsStatToErrno_eq_zero_iff stat.toInt
  have hok := word_eq_ok_iff stat
  constructor
  · intro hsigned hmem
    have heq := hok.mp (hsigned.1.mp (hzero.mpr (.inr hmem)))
    exact hdisjoint (heq ▸ hmem)
  · intro hnot
    have hiff : vsnfsStatToErrno stat.toInt = 0 ↔ stat = BitVec.ofNat 32 VsnfsStat.ok.code := by
      rw [hzero, hok]
      exact or_iff_left hnot
    refine ⟨hiff, fun hne => ?_⟩
    have hnonzero := mt hiff.mp hne
    omega

theorem errnoReturned_iff {errno : Int} (hown : OwnStatus errno) :
    ErrnoReturned errno ↔ errno ∉ rowlessErrnos := by
  -- A row whose status another row has too is not the errno's own.
  have hrows : ∀ errno ∈ vsnfserrnoTable.map Prod.snd,
      (∃ other ∈ vsnfserrnoTable.map Prod.snd, vsnfserrno other = vsnfserrno errno ∧ other ≠ errno) ∨
        (ErrnoReturned errno ↔ errno ∉ rowlessErrnos) := by
    decide
  obtain ⟨other, -, hsame, hne⟩ | hiff := hrows errno hown.1
  · exact absurd (hown.2 other hsame) hne
  · exact hiff

/-- **The tables invert each other off seven rows.** A status is translated with the right sign unless
it is one of the two differences, and a host error with its own status comes back unless the client
has no row for that status. -/
theorem error_tables_inverse_iff (stat : Word) (errno : Int) :
    (StatusSigned stat ↔ stat.toInt ∉ subtractedStatuses) ∧
      (OwnStatus errno → (ErrnoReturned errno ↔ errno ∉ rowlessErrnos)) :=
  ⟨statusSigned_iff stat, errnoReturned_iff⟩

theorem ownStatus_of_rows {errno : Int} (hrow : errno ∈ vsnfserrnoTable.map Prod.snd)
    (hio : vsnfserrno errno ≠ vsnfserr .io)
    (hrows : ∀ row ∈ vsnfserrnoTable, vsnfserr row.1 = vsnfserrno errno → row.2 = errno) :
    OwnStatus errno := by
  refine ⟨hrow, fun other hsame => ?_⟩
  unfold vsnfserrno at hsame
  split at hsame
  · rename_i row hfind
    have hother : row.2 = other := by simpa using List.find?_some hfind
    exact hother.symm.trans (hrows row (List.mem_of_find?_eq_some hfind) hsame)
  · exact absurd hsame.symm hio

/-- A missing file is translated there and back. -/
theorem error_tables_inverse_noent :
    OwnStatus (-enoent) ∧ ErrnoReturned (-enoent) ∧ StatusSigned (BitVec.ofNat 32 VsnfsStat.noent.code) := by
  have hown : OwnStatus (-enoent) := ownStatus_of_rows (by decide) (by decide) (by decide)
  have htables := error_tables_inverse_iff (BitVec.ofNat 32 VsnfsStat.noent.code) (-enoent)
  exact ⟨hown, (htables.2 hown).mpr (by decide), htables.1.mpr (by decide)⟩

/-- The status 9480 is taken for success, and `-EACCES` does not come back. -/
theorem error_tables_not_inverse :
    ¬ StatusSigned 9480 ∧ vsnfsStatToErrno (9480 : Word).toInt = 0 ∧
      OwnStatus (-13) ∧ ¬ ErrnoReturned (-13) := by
  refine ⟨fun hsigned => ?_, by decide, ownStatus_of_rows (by decide) (by decide) (by decide), by decide⟩
  exact absurd (hsigned.1.mp (by decide)) (by decide)

end Vsnfs
