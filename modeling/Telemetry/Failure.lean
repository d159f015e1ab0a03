/-!
# Failures

What can go wrong, by family.  A storage failure names the step that failed, a settings failure the
step and the file; the other families carry what they are about.  `Failure.message` is the text for
a reader.
-/

namespace Telemetry

/-- What a file operation ran into. -/
inductive FileFault where
  | notFound
  | notAFolder
  | isAFolder
  | alreadyExists
  | busy
  | nameTooLong
  | invalidPath
  | other (text : String)
deriving DecidableEq, Repr

def FileFault.message : FileFault → String
  | .notFound => "No such file or directory (os error 2)"
  | .notAFolder => "Not a directory (os error 20)"
  | .isAFolder => "Is a directory (os error 21)"
  | .alreadyExists => "File exists (os error 17)"
  | .busy => "Device or resource busy (os error 16)"
  | .nameTooLong => "File name too long (os error 36)"
  | .invalidPath => "file name contained an unexpected NUL byte"
  | .other text => text

/-- The steps of the store that can fail. -/
inductive StorageStep where
  | openDatabase
  | configureDatabase
  | migrate
  | prepareQuery
  | findOpenReport
  | createReport
  | endReport
  | expireSessions
  | endAllSessions
  | convertReport
  | findSessions
  | convertSession
  | deleteValues
  | deleteMetrics
  | deleteReport
  | deleteOrphanReports
  | findMetric
  | updateMetric
  | saveMetric
  | convertMetric
  | deleteOrphanMetrics
  | saveValue
  | aggregateNumbers
  | findLatest
  | deleteOldValues
  | convertValue
deriving DecidableEq, Repr

def StorageStep.message : StorageStep → String
  | .openDatabase => "SQLite 열기 실패"
  | .configureDatabase => "PRAGMA 설정 실패"
  | .migrate => "마이그레이션 실패"
  | .prepareQuery => "쿼리 준비 실패"
  | .findOpenReport => "열린 리포트 조회 실패"
  | .createReport => "리포트 생성 실패"
  | .endReport => "리포트 종료 실패"
  | .expireSessions => "세션 만료 실패"
  | .endAllSessions => "세션 일괄 종료 실패"
  | .convertReport => "리포트 행 변환 실패"
  | .findSessions => "세션 조회 실패"
  | .convertSession => "세션 행 변환 실패"
  | .deleteValues => "값 삭제 실패"
  | .deleteMetrics => "메타데이터 삭제 실패"
  | .deleteReport => "리포트 삭제 실패"
  | .deleteOrphanReports => "고아 리포트 삭제 실패"
  | .findMetric => "메타데이터 조회 실패"
  | .updateMetric => "메타데이터 갱신 실패"
  | .saveMetric => "메타데이터 저장 실패"
  | .convertMetric => "메타데이터 행 변환 실패"
  | .deleteOrphanMetrics => "고아 메타데이터 삭제 실패"
  | .saveValue => "값 저장 실패"
  | .aggregateNumbers => "숫자 집계 실패"
  | .findLatest => "최신 값 조회 실패"
  | .deleteOldValues => "오래된 값 삭제 실패"
  | .convertValue => "값 행 변환 실패"

/-- Why an operation did not succeed. -/
inductive Failure where
  | serialization (cause : String)
  | settings (message : String)
  | validation (field message : String)
  | storage (message : String)
  | internal (message : String)
  | io (fault : FileFault)
deriving DecidableEq, Repr

/-- The text for a reader. -/
def Failure.message : Failure → String
  | .serialization cause => s!"직렬화 에러: {cause}"
  | .settings message => s!"설정 에러: {message}"
  | .validation field message => s!"유효성 검증 실패 ({field}): {message}"
  | .storage message => s!"저장소 에러: {message}"
  | .internal message => s!"내부 에러: {message}"
  | .io fault => s!"I/O 에러: {fault.message}"

def StorageStep.failure (step : StorageStep) : Failure := .storage step.message

/-- The failure of a step of the store with its cause. -/
def StorageStep.failureBecause (step : StorageStep) (cause : String) : Failure :=
  let message := step.message
  .storage s!"{message}: {cause}"

/-- A text that does not decode. -/
def Failure.malformed : Failure := .serialization "malformed text"

end Telemetry
